import FastClone.Spec.Links
import Mathlib.Data.Char
import Mathlib.Data.Prod.Lex
import Mathlib.Logic.Equiv.Defs

/-!
# The order of enumeration

The rows and columns of the matrix come in the order in which the operating system and the server list their
addresses. `better` breaks its last ties by row and column, so that order can show in the links.
-/

namespace FastClone.Links

open FastClone.Endpoint

/-- What `better` compares before it compares positions. -/
def Score := ℕ ×ₗ ℕ ×ₗ ℤ ×ₗ Text ×ₗ Text

instance : LinearOrder Score := inferInstanceAs (LinearOrder (ℕ ×ₗ ℕ ×ₗ ℤ ×ₗ Text ×ₗ Text))

def Edge.score (e : Edge) : Score := toLex (e.family, toLex (e.subnet, toLex (e.rtt, toLex (e.clientNic, e.serverNic))))

def Score.nics (s : Score) : Text × Text := ofLex (ofLex (ofLex (ofLex s).2).2).2

/-- The rows and columns of `m` in another order. -/
structure Permuted (m m' : ReachabilityMatrix) (σ τ : Equiv.Perm ℕ) : Prop where
  rows : m'.localAddrs.length = m.localAddrs.length
  cols : m'.serverEndpoints.length = m.serverEndpoints.length
  row : ∀ i, σ i < m.localAddrs.length ↔ i < m.localAddrs.length
  col : ∀ j, τ j < m.serverEndpoints.length ↔ j < m.serverEndpoints.length
  addr : ∀ i < m.localAddrs.length, m'.addr i = m.addr (σ i)
  iface : ∀ i < m.localAddrs.length, m'.localIfaces.getD i [] = m.localIfaces.getD (σ i) []
  prefixLen : ∀ i < m.localAddrs.length, m'.prefixLenOf i = m.prefixLenOf (σ i)
  endpoint : ∀ j < m.serverEndpoints.length, m'.endpoint j = m.endpoint (τ j)
  cell : ∀ i < m.localAddrs.length, ∀ j < m.serverEndpoints.length, m'.cell i j = m.cell (σ i) (τ j)

def permute (m : ReachabilityMatrix) (σ τ : Equiv.Perm ℕ) : ReachabilityMatrix where
  localAddrs := (List.range m.localAddrs.length).map fun i => m.addr (σ i)
  localIfaces := (List.range m.localAddrs.length).map fun i => m.localIfaces.getD (σ i) []
  localPrefixLens := (List.range m.localAddrs.length).map fun i => m.prefixLenOf (σ i)
  serverEndpoints := (List.range m.serverEndpoints.length).map fun j => m.endpoint (τ j)
  cells := (List.range m.localAddrs.length).map fun i =>
    (List.range m.serverEndpoints.length).map fun j => m.cell (σ i) (τ j)

section Order

variable (m : ReachabilityMatrix) (maxConnections : ℕ) (primaryInterface primaryServerKey : Text)

/-- The links do not depend on the order of the rows and columns. -/
def OrderFree : Prop :=
  ∀ m' σ τ, Permuted m m' σ τ →
    selectAutoLinks m' maxConnections primaryInterface primaryServerKey =
      selectAutoLinks m maxConnections primaryInterface primaryServerKey

/-- The score of the best cells of two free NICs. -/
def BestScore (s : Score) : Prop :=
  NicEdge m primaryInterface primaryServerKey s.nics ∧ (∃ i j, Reachable m i j ∧ (edgeAt m i j).score = s) ∧
    ∀ i j, Reachable m i j → (edgeAt m i j).key = s.nics → s ≤ (edgeAt m i j).score

/-- The least maximum matching of the NICs; positions play no part in it. -/
structure LeastMatching (links : List Score) : Prop where
  best : ∀ s ∈ links, BestScore m primaryInterface primaryServerKey s
  sorted : links.Pairwise (· < ·)
  matching : IsMatching (links.map Score.nics)
  number : ∃ k, MaximumSize (NicEdge m primaryInterface primaryServerKey) k ∧
    links.length = min (maxConnections - reserved primaryInterface primaryServerKey) k
  least : ∀ Q : List Score, (∀ s ∈ Q, BestScore m primaryInterface primaryServerKey s) → Q.Pairwise (· < ·) →
    IsMatching (Q.map Score.nics) → Q.length = links.length → links = Q ∨ List.Lex (· < ·) links Q

/-- Two NICs of the least matching have only one cell with their best score. -/
def NoTies : Prop :=
  ∀ links, LeastMatching m maxConnections primaryInterface primaryServerKey links → ∀ s ∈ links, ∀ i j i' j',
    Reachable m i j → Reachable m i' j' → (edgeAt m i j).score = s → (edgeAt m i' j').score = s → i = i' ∧ j = j'

end Order

end FastClone.Links
