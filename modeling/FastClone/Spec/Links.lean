import FastClone.Lib.Kuhn
import FastClone.Spec.Endpoint
import Mathlib.Data.Char
import Mathlib.Data.List.AList
import Mathlib.Data.List.Lex
import Mathlib.Data.List.Sort

/-!
# The selection of links (`net_topology.cpp`)

Every local address has been probed against every endpoint of the server. `SelectAutoLinks` keeps the best
reachable cell for each pair of a client NIC and a server NIC, and then takes pairs, best first, as long as the
rest still allows as many links as possible.

The vertices of the graph are the NICs themselves: the source numbers them by their rank among the sorted names,
and the flags of the committed ones are those of the links already chosen.
-/

namespace FastClone.Links

open FastClone.Endpoint

/-! ### Addresses -/

/-- `FamilyRank`. -/
def familyRank (ip : Text) : ℕ := if (find ':' ip).isSome then 1 else 0

/-- `StripZoneAndBrackets`. -/
def stripZoneAndBrackets (input : Text) : Text :=
  let s :=
    if input.head? = some '[' then
      match find ']' input with
      | some close => (input.drop 1).take (close - 1)
      | none => input
    else input
  match find '%' s with
  | some pct => s.take pct
  | none => s

/-- The loop of `ParseIPv4Bytes`: the octets that are complete, the digits of the next, and its value. -/
structure Octets where
  out : List UInt8 := []
  digits : ℕ := 0
  octet : ℕ := 0

def Octets.next (o : Octets) (c : Char) : Option Octets :=
  if c = '.' then
    if o.digits = 0 ∨ o.out.length ≥ 3 then none else some ⟨o.out ++ [UInt8.ofNat o.octet], 0, 0⟩
  else if c.isDigit then
    let octet := o.octet * 10 + (c.toNat - '0'.toNat)
    if o.digits + 1 > 3 ∨ octet > 255 then none else some ⟨o.out, o.digits + 1, octet⟩
  else none

/-- `ParseIPv4Bytes`. -/
def parseIPv4Bytes (s : Text) : Option (List UInt8) := do
  let o ← s.foldlM Octets.next {}
  if o.digits = 0 ∨ o.out.length ≠ 3 then none else some (o.out ++ [UInt8.ofNat o.octet])

def hexValue (c : Char) : Option ℕ :=
  if c.isDigit then some (c.toNat - '0'.toNat)
  else if 'a' ≤ c ∧ c ≤ 'f' then some (c.toNat - 'a'.toNat + 10)
  else if 'A' ≤ c ∧ c ≤ 'F' then some (c.toNat - 'A'.toNat + 10)
  else none

/-- `parseGroups`. -/
def parseGroups (part : Text) : Option (List ℕ) :=
  if part = [] then some []
  else (part.splitOn ':').mapM fun tok =>
    if tok = [] ∨ tok.length > 4 then none
    else tok.foldlM (fun val c => (hexValue c).map fun d => val * 16 + d) 0

/-- The position of the first `::`. -/
def findDouble : Text → Option ℕ
  | ':' :: ':' :: _ => some 0
  | _ :: rest => (findDouble rest).map (· + 1)
  | [] => none

/-- `ParseIPv6Bytes`. -/
def parseIPv6Bytes (s : Text) : Option (List UInt8) := do
  let words ←
    match findDouble s with
    | none => do
      let headGroups ← parseGroups s
      if headGroups.length ≠ 8 then none else some headGroups
    | some dc => do
      let headGroups ← parseGroups (s.take dc)
      let tailGroups ← parseGroups (s.drop (dc + 2))
      if headGroups.length + tailGroups.length > 7 then none
      else some (headGroups ++ List.replicate (8 - headGroups.length - tailGroups.length) 0 ++ tailGroups)
  some (words.flatMap fun word => [UInt8.ofNat (word / 256), UInt8.ofNat (word % 256)])

/-- `SamePrefixBits`. -/
def samePrefixBits (a b : List UInt8) (bits : ℕ) : Bool :=
  let fullBytes := bits / 8
  let remBits := bits % 8
  let mask := UInt8.ofNat (0xFF <<< (8 - remBits))
  a.take fullBytes == b.take fullBytes &&
    (remBits == 0 || (a.getD fullBytes 0 &&& mask) == (b.getD fullBytes 0 &&& mask))

/-- `SameSubnet`. -/
def sameSubnet (clientIpRaw : Text) (prefixLen : ℤ) (serverHostRaw : Text) : Bool :=
  let clientIp := stripZoneAndBrackets clientIpRaw
  let serverHost := stripZoneAndBrackets serverHostRaw
  if clientIp = [] ∨ serverHost = [] then false
  else
    let clientV6 := (find ':' clientIp).isSome
    let serverV6 := (find ':' serverHost).isSome
    if clientV6 ≠ serverV6 then false
    else if !clientV6 then
      match parseIPv4Bytes clientIp, parseIPv4Bytes serverHost with
      | some a, some b => samePrefixBits a b (if prefixLen > 0 ∧ prefixLen ≤ 32 then prefixLen.toNat else 24)
      | _, _ => false
    else
      match parseIPv6Bytes clientIp, parseIPv6Bytes serverHost with
      | some a, some b => samePrefixBits a b (if prefixLen > 0 ∧ prefixLen ≤ 128 then prefixLen.toNat else 64)
      | _, _ => false

/-! ### The matrix -/

structure ServerEndpoint where
  host : Text
  port : UInt16
  nicGroup : Text := []
  deriving DecidableEq

structure ReachabilityCell where
  reachable : Bool := false
  rttMs : ℤ := -1

structure ReachabilityMatrix where
  localAddrs : List Text
  localIfaces : List Text
  localPrefixLens : List ℤ
  serverEndpoints : List ServerEndpoint
  cells : List (List ReachabilityCell)

structure LinkPlan where
  localAddr : Text
  serverHost : Text
  serverPort : UInt16
  deriving DecidableEq

/-- `serverKey`. -/
def serverKey (ep : ServerEndpoint) : Text := ep.host ++ [':'] ++ toText ep.port.toNat

/-- `groupOf`, of an endpoint. -/
def groupOf (ep : ServerEndpoint) : Text := if ep.nicGroup ≠ [] then ep.nicGroup else serverKey ep

namespace ReachabilityMatrix

variable (m : ReachabilityMatrix)

def addr (i : ℕ) : Text := m.localAddrs.getD i []

def endpoint (j : ℕ) : ServerEndpoint := m.serverEndpoints.getD j ⟨[], 0, []⟩

/-- A cell; the row may be shorter than the list of endpoints. -/
def cell (i j : ℕ) : ReachabilityCell := (m.cells.getD i []).getD j {}

/-- `ifaceKeyOf`. -/
def ifaceKeyOf (i : ℕ) : Text :=
  let iface := m.localIfaces.getD i []
  if iface ≠ [] then iface else m.addr i

/-- `prefixLenOf`. -/
def prefixLenOf (i : ℕ) : ℤ := m.localPrefixLens.getD i 0

end ReachabilityMatrix

/-! ### The primary lane -/

/-- `usedClient`. -/
def usedClient (primaryInterface : Text) : List Text := if primaryInterface = [] then [] else [primaryInterface]

/-- `primaryGroup`. -/
def primaryGroup (m : ReachabilityMatrix) (primaryServerKey : Text) : Text :=
  match m.serverEndpoints.find? fun ep => serverKey ep = primaryServerKey with
  | some ep => groupOf ep
  | none => primaryServerKey

/-- `usedServer`. -/
def usedServer (m : ReachabilityMatrix) (primaryServerKey : Text) : List Text :=
  if primaryServerKey = [] then [] else [primaryGroup m primaryServerKey]

/-- `reserved`. -/
def reserved (primaryInterface primaryServerKey : Text) : ℕ :=
  if primaryInterface ≠ [] ∨ primaryServerKey ≠ [] then 1 else 0

/-! ### Edges -/

structure Edge where
  family : ℕ
  subnet : ℕ
  rtt : ℤ
  row : ℕ
  col : ℕ
  clientNic : Text
  serverNic : Text
  deriving DecidableEq

def better (a b : Edge) : Bool :=
  if a.family ≠ b.family then decide (a.family < b.family)
  else if a.subnet ≠ b.subnet then decide (a.subnet < b.subnet)
  else if a.rtt ≠ b.rtt then decide (a.rtt < b.rtt)
  else if a.clientNic ≠ b.clientNic then decide (a.clientNic < b.clientNic)
  else if a.serverNic ≠ b.serverNic then decide (a.serverNic < b.serverNic)
  else if a.row ≠ b.row then decide (a.row < b.row)
  else decide (a.col < b.col)

def Edge.key (e : Edge) : Text × Text := (e.clientNic, e.serverNic)

/-- The edge of a cell. -/
def edgeAt (m : ReachabilityMatrix) (i j : ℕ) : Edge where
  family := familyRank (m.addr i)
  subnet := if sameSubnet (m.addr i) (m.prefixLenOf i) (m.endpoint j).host then 0 else 1
  rtt := (m.cell i j).rttMs
  row := i
  col := j
  clientNic := m.ifaceKeyOf i
  serverNic := groupOf (m.endpoint j)

section Selection

variable (m : ReachabilityMatrix) (maxConnections : ℕ) (primaryInterface primaryServerKey : Text)

/-- The edges of one row. -/
def rowEdges (i : ℕ) : List Edge :=
  if m.ifaceKeyOf i ∈ usedClient primaryInterface then []
  else
    ((List.range (min m.serverEndpoints.length (m.cells.getD i []).length)).filter fun j =>
      (m.cell i j).reachable && !decide (groupOf (m.endpoint j) ∈ usedServer m primaryServerKey)).map (edgeAt m i)

/-- All edges, in the order of the loops. -/
def cellEdges : List Edge :=
  (List.range m.localAddrs.length).flatMap (rowEdges m primaryInterface primaryServerKey)

/-- One turn of the loop: the better of two edges of one pair stays. -/
def keepBest (bestEdge : AList fun _ : Text × Text => Edge) (e : Edge) : AList fun _ : Text × Text => Edge :=
  match bestEdge.lookup e.key with
  | none => bestEdge.insert e.key e
  | some old => if better e old then bestEdge.insert e.key e else bestEdge

/-- `edges`: the best edge of each pair, best first. -/
def edges : List Edge :=
  (((cellEdges m primaryInterface primaryServerKey).foldl keepBest ∅).entries.map Sigma.snd).insertionSort
    fun a b => better b a = false

end Selection

/-- `adjacency`, best first. -/
def adjacency (edges : List Edge) (c : Text) : List Text :=
  (edges.filter fun e => e.clientNic = c).map Edge.serverNic

/-- `clientNics` and `serverNics`. -/
def nicsOf (names : List Text) : List Text := (names.insertionSort (· ≤ ·)).dedup

/-- `maxMatching`, with the NICs of the links in `committed` blocked. -/
def maxMatching (edges committed : List Edge) : ℕ :=
  let clientNics := nicsOf (edges.map Edge.clientNic)
  let serverNics := nicsOf (edges.map Edge.serverNic)
  (Kuhn.phases (adjacency edges) (fun s => decide (s ∈ committed.map Edge.serverNic)) (serverNics.length + 1)
    (clientNics.filter fun c => !decide (c ∈ committed.map Edge.clientNic))).2

/-- One turn of the last loop. -/
def commit (edges : List Edge) (kMax : ℕ) (chosen : List Edge) (e : Edge) : List Edge :=
  if chosen.length ≥ kMax then chosen
  else if e.clientNic ∈ chosen.map Edge.clientNic ∨ e.serverNic ∈ chosen.map Edge.serverNic then chosen
  else if chosen.length + 1 + maxMatching edges (chosen ++ [e]) ≥ kMax then chosen ++ [e]
  else chosen

section Selection

variable (m : ReachabilityMatrix) (maxConnections : ℕ) (primaryInterface primaryServerKey : Text)

/-- `kMax`. -/
def kMax : ℕ :=
  min (maxConnections - reserved primaryInterface primaryServerKey)
    (maxMatching (edges m primaryInterface primaryServerKey) [])

/-- The edges that become links. -/
def chosenEdges : List Edge :=
  if maxConnections ≤ reserved primaryInterface primaryServerKey then []
  else
    (edges m primaryInterface primaryServerKey).foldl
      (commit (edges m primaryInterface primaryServerKey) (kMax m maxConnections primaryInterface primaryServerKey)) []

def planOf (e : Edge) : LinkPlan := ⟨m.addr e.row, (m.endpoint e.col).host, (m.endpoint e.col).port⟩

/-- `SelectAutoLinks`. -/
def selectAutoLinks : List LinkPlan :=
  (chosenEdges m maxConnections primaryInterface primaryServerKey).map (planOf m)

end Selection

/-! ### What is to be selected -/

/-- No NIC is used twice. -/
def IsMatching (links : List (Text × Text)) : Prop := (links.map Prod.fst).Nodup ∧ (links.map Prod.snd).Nodup

/-- The cell is reachable. -/
def Reachable (m : ReachabilityMatrix) (i j : ℕ) : Prop :=
  i < m.localAddrs.length ∧ j < m.serverEndpoints.length ∧ (m.cell i j).reachable = true

/-- The NIC graph without the NICs of the primary lane. -/
def NicEdge (m : ReachabilityMatrix) (primaryInterface primaryServerKey : Text) (pair : Text × Text) : Prop :=
  pair.1 ∉ usedClient primaryInterface ∧ pair.2 ∉ usedServer m primaryServerKey ∧
    ∃ i j, Reachable m i j ∧ m.ifaceKeyOf i = pair.1 ∧ groupOf (m.endpoint j) = pair.2

/-- `k` is the size of a maximum matching of the pairs in `E`. -/
def MaximumSize (E : Text × Text → Prop) (k : ℕ) : Prop :=
  (∃ P : List (Text × Text), (∀ p ∈ P, E p) ∧ IsMatching P ∧ P.length = k) ∧
    ∀ P : List (Text × Text), (∀ p ∈ P, E p) → IsMatching P → P.length ≤ k

section Optimal

variable (m : ReachabilityMatrix) (maxConnections : ℕ) (primaryInterface primaryServerKey : Text)

/-- No reachable cell of the same two NICs is better. -/
def BestEdge (e : Edge) : Prop :=
  (e = edgeAt m e.row e.col ∧ Reachable m e.row e.col ∧ NicEdge m primaryInterface primaryServerKey e.key) ∧
    ∀ i j, Reachable m i j → (edgeAt m i j).key = e.key → better (edgeAt m i j) e = false

/-- The cells to be linked: as many as there can be, and the least list of so many. -/
structure Optimal (links : List Edge) : Prop where
  cells : ∀ e ∈ links, e = edgeAt m e.row e.col ∧ Reachable m e.row e.col
  matching : IsMatching (links.map Edge.key)
  client : primaryInterface ≠ [] → primaryInterface ∉ links.map Edge.clientNic
  server : ∀ ep, (m.serverEndpoints.find? fun ep => serverKey ep = primaryServerKey) = some ep →
    groupOf ep ∉ links.map Edge.serverNic
  number : ∃ k, MaximumSize (NicEdge m primaryInterface primaryServerKey) k ∧
    links.length = min (maxConnections - reserved primaryInterface primaryServerKey) k
  best : ∀ e ∈ links, BestEdge m primaryInterface primaryServerKey e
  sorted : links.Pairwise fun a b => better a b = true
  least : ∀ B : List Edge, (∀ e ∈ B, BestEdge m primaryInterface primaryServerKey e) →
    (B.Pairwise fun a b => better a b = true) → IsMatching (B.map Edge.key) → B.length = links.length →
    links = B ∨ List.Lex (fun a b => better a b = true) links B

end Optimal

end FastClone.Links
