import Uno.Deploy.Crossed
import Mathlib.Data.Finset.Lattice.Fold

/-!
# The random strategy

`RandomDeploymentGraph.generateEdges` adds the edges of randomly chosen walks over the peers until
every peer has enough of them or the tries are exhausted. The random choices are a parameter
(`Choices`).

`Inv` is the invariant of the graph: symmetric, irreflexive, no edge between private peers, degrees
within the maximum, and the three sets of peers classified by degree. `storeEdge` keeps it
(`storeEdge_inv`).
-/

namespace Uno

/-- The outcomes of `random.sample`: for each try and the peers visited so far, one of the
candidates. -/
structure Choices where
  pick : ℕ → List ℕ → Finset ℕ → ℕ
  pick_mem : ∀ i visited s, s.Nonempty → pick i visited s ∈ s

structure RandomDeploymentGraph where
  minPeerEdges : ℕ
  okPeerEdges : ℕ
  maxPeerEdges : ℕ
  peers : Finset ℕ
  privatePeers : Finset ℕ
  /-- `peer_edges`: every peer has a set, empty at first. -/
  peerEdges : ℕ → Finset ℕ
  fullPeers : Finset ℕ
  okPeers : Finset ℕ
  minPeers : Finset ℕ

/-- What `_generate_new_spanning_tree` returns, or raises as `IncompleteSpanTree`. -/
inductive SpanTree where
  | complete (edges : List (ℕ × ℕ))
  | incomplete (edges : List (ℕ × ℕ))

namespace RandomDeploymentGraph

def new (peers : Finset ℕ) (minPeerEdges okPeerEdges maxPeerEdges : ℕ) (privatePeers : Finset ℕ) :
    RandomDeploymentGraph :=
  ⟨minPeerEdges, okPeerEdges, maxPeerEdges, peers, privatePeers, fun _ => ∅, ∅, ∅, ∅⟩

def publicPeers (g : RandomDeploymentGraph) : Finset ℕ := g.peers \ g.privatePeers

def updatePeerStatus (g : RandomDeploymentGraph) (p : ℕ) : RandomDeploymentGraph :=
  if (g.peerEdges p).card ≥ g.maxPeerEdges then
    { g with
      okPeers := g.okPeers.erase p, minPeers := g.minPeers.erase p, fullPeers := insert p g.fullPeers }
  else if (g.peerEdges p).card ≥ g.okPeerEdges then
    { g with okPeers := insert p g.okPeers, minPeers := g.minPeers.erase p }
  else if (g.peerEdges p).card ≥ g.minPeerEdges then { g with minPeers := insert p g.minPeers }
  else g

/-- `a_edges.add(b)`, and the new status of `a`. -/
def addHalfEdge (g : RandomDeploymentGraph) (a b : ℕ) : RandomDeploymentGraph :=
  { g with peerEdges := Function.update g.peerEdges a (insert b (g.peerEdges a)) }.updatePeerStatus a

def storeEdge (g : RandomDeploymentGraph) (a b : ℕ) : RandomDeploymentGraph :=
  if (g.peerEdges a).card < g.maxPeerEdges ∧ (g.peerEdges b).card < g.maxPeerEdges then
    (g.addHalfEdge a b).addHalfEdge b a
  else g

/-- `for edge in edges: self._store_edge(*edge)`. -/
def storeEdges (g : RandomDeploymentGraph) (edges : List (ℕ × ℕ)) : RandomDeploymentGraph :=
  edges.foldl (fun g e => g.storeEdge e.1 e.2) g

/-- The loop of `_generate_new_spanning_tree`; the first argument is the number of peers not visited
yet. -/
def extendTree (g : RandomDeploymentGraph) (c : Choices) (i : ℕ) :
    ℕ → ℕ → List ℕ → List (ℕ × ℕ) → Result SpanTree
  | 0, _, _, edges => .ok (.complete edges)
  | remaining + 1, current, visited, edges =>
    let neighbors := (if current ∈ g.publicPeers then g.peers else g.publicPeers) \ visited.toFinset
    if neighbors = ∅ then .ok (.incomplete edges)
    else do
      let other := c.pick i visited neighbors
      pyAssert (current ∈ g.publicPeers ∨ other ∈ g.publicPeers)
      extendTree g c i remaining other (visited ++ [other]) (edges ++ [(current, other)])

def generateNewSpanningTree (g : RandomDeploymentGraph) (c : Choices) (i : ℕ) : Result SpanTree :=
  if g.peers = ∅ then .error (.value "sample larger than population")
  else
    let current := c.pick i [] g.peers
    g.extendTree c i (g.peers.card - 1) current [current] []

def testPartial (g : RandomDeploymentGraph) : Bool :=
  g.okPeers.card + g.fullPeers.card + g.minPeers.card ≥ g.peers.card

/-- Try `i` of `generate_edges`, and whether it returns. When the tries are exhausted, the error is
that of logging: the graph has no `log`. -/
def tryEdges (g : RandomDeploymentGraph) (c : Choices) (maxTries i : ℕ) :
    Result (Bool × RandomDeploymentGraph) := do
  match ← g.generateNewSpanningTree c i with
  | .complete edges =>
    let g := g.storeEdges edges
    if g.okPeers.card + g.fullPeers.card ≥ g.peers.card then do
      pyAssert ((g.okPeers ∩ g.fullPeers).card = 0)
      pyAssert ((g.okPeers ∩ g.minPeers).card = 0)
      pyAssert ((g.fullPeers ∩ g.minPeers).card = 0)
      .ok (true, g)
    else .ok (false, g)
  | .incomplete edges =>
    let stores := g.privatePeers.card ≥ g.publicPeers.card
    let g := if stores then g.storeEdges edges else g
    if stores ∧ g.testPartial then .ok (true, g)
    else if i + 1 < maxTries then .ok (false, g)
    else if g.testPartial then .ok (true, g)
    else .error (.attribute "log")

def tryAll (c : Choices) (maxTries : ℕ) : List ℕ → RandomDeploymentGraph → Result RandomDeploymentGraph
  | [], g => .ok g
  | i :: rest, g => do
    let (returned, g) ← g.tryEdges c maxTries i
    if returned then .ok g else tryAll c maxTries rest g

def generateEdges (g : RandomDeploymentGraph) (c : Choices) (maxTries : ℕ) : Result RandomDeploymentGraph :=
  tryAll c maxTries (List.range maxTries) g

end RandomDeploymentGraph

namespace RandomDeploymentStrategy

/-- `min_peers`, `ok_peers` and `max_peers`. -/
def edgeCounts (peers privatePeers : Finset ℕ) : ℕ × ℕ × ℕ :=
  let peersCount := peers.card
  if peersCount ≤ 1 then (0, 0, 0)
  else if peersCount ≤ 3 then (1, peersCount - 1, peersCount)
  else
    let publicCount := (peers \ privatePeers).card
    let privateCount := privatePeers.card
    (1, 2, if publicCount < privateCount then 3 + privateCount - publicCount else 3)

/-- The graph the strategy starts from. -/
def newGraph (peers privatePeers : Finset ℕ) : Result RandomDeploymentGraph :=
  let (minPeers, okPeers, maxPeers) := edgeCounts peers privatePeers
  if max maxPeers (max minPeers okPeers) ≠ maxPeers then .error (.runtime "invalid max_peers setting")
  else if min maxPeers (min minPeers okPeers) ≠ minPeers then
    .error (.runtime "invalid min_peers setting")
  else if okPeers > maxPeers ∨ okPeers < minPeers then .error (.runtime "invalid ok_peers setting")
  else .ok (.new peers minPeers okPeers maxPeers privatePeers)

end RandomDeploymentStrategy

/-! ### The invariant of the graph -/

namespace RandomDeploymentGraph

variable {g : RandomDeploymentGraph} {a b p x : ℕ}

/-- The settings a graph is built with, which no step changes. -/
structure SameSettings (g g' : RandomDeploymentGraph) : Prop where
  min : g'.minPeerEdges = g.minPeerEdges
  ok : g'.okPeerEdges = g.okPeerEdges
  max : g'.maxPeerEdges = g.maxPeerEdges
  peers : g'.peers = g.peers
  privatePeers : g'.privatePeers = g.privatePeers

theorem SameSettings.refl (g : RandomDeploymentGraph) : g.SameSettings g := ⟨rfl, rfl, rfl, rfl, rfl⟩

theorem SameSettings.trans {g₁ g₂ g₃ : RandomDeploymentGraph} (h : g₁.SameSettings g₂)
    (h' : g₂.SameSettings g₃) : g₁.SameSettings g₃ :=
  ⟨h'.min.trans h.min, h'.ok.trans h.ok, h'.max.trans h.max, h'.peers.trans h.peers,
    h'.privatePeers.trans h.privatePeers⟩

theorem SameSettings.publicPeers {g g' : RandomDeploymentGraph} (h : g.SameSettings g') :
    g'.publicPeers = g.publicPeers := by
  rw [RandomDeploymentGraph.publicPeers, h.peers, h.privatePeers]
  rfl

/-- A peer is in the set its degree belongs to. -/
structure Classified (g : RandomDeploymentGraph) (x : ℕ) : Prop where
  full : x ∈ g.fullPeers ↔ g.maxPeerEdges ≤ (g.peerEdges x).card
  ok : x ∈ g.okPeers ↔ g.okPeerEdges ≤ (g.peerEdges x).card ∧ (g.peerEdges x).card < g.maxPeerEdges
  min : x ∈ g.minPeers ↔ g.minPeerEdges ≤ (g.peerEdges x).card ∧ (g.peerEdges x).card < g.okPeerEdges

structure Inv (g : RandomDeploymentGraph) : Prop where
  min_pos : 0 < g.minPeerEdges
  min_le : g.minPeerEdges ≤ g.okPeerEdges
  ok_le : g.okPeerEdges ≤ g.maxPeerEdges
  symm : ∀ a b, b ∈ g.peerEdges a → a ∈ g.peerEdges b
  irrefl : ∀ a, a ∉ g.peerEdges a
  mem : ∀ a b, b ∈ g.peerEdges a → a ∈ g.peers
  not_private : ∀ a b, b ∈ g.peerEdges a → a ∈ g.publicPeers ∨ b ∈ g.publicPeers
  degree_le : ∀ a, (g.peerEdges a).card ≤ g.maxPeerEdges
  classified : ∀ a, g.Classified a

theorem updatePeerStatus_peerEdges : (g.updatePeerStatus p).peerEdges = g.peerEdges := by
  rw [updatePeerStatus]
  split_ifs <;> rfl

theorem sameSettings_updatePeerStatus : g.SameSettings (g.updatePeerStatus p) := by
  rw [updatePeerStatus]
  split_ifs <;> exact ⟨rfl, rfl, rfl, rfl, rfl⟩

theorem sameSettings_addHalfEdge : g.SameSettings (g.addHalfEdge a b) := by
  have h := sameSettings_updatePeerStatus (p := a)
    (g := { g with peerEdges := Function.update g.peerEdges a (insert b (g.peerEdges a)) })
  exact ⟨h.min, h.ok, h.max, h.peers, h.privatePeers⟩

theorem addHalfEdge_peerEdges :
    (g.addHalfEdge a b).peerEdges = Function.update g.peerEdges a (insert b (g.peerEdges a)) := by
  rw [addHalfEdge, updatePeerStatus_peerEdges]

theorem classified_addHalfEdge (hle : g.okPeerEdges ≤ g.maxPeerEdges)
    (hlt : (g.peerEdges a).card < g.maxPeerEdges) (h : ∀ x, g.Classified x) (x : ℕ) :
    (g.addHalfEdge a b).Classified x := by
  obtain ⟨hfull, hok, hmin⟩ := h x
  have hcard : (g.peerEdges a).card ≤ (insert b (g.peerEdges a)).card :=
    Finset.card_le_card (Finset.subset_insert _ _)
  by_cases hx : x = a
  · subst hx
    constructor <;> rw [addHalfEdge_peerEdges, Function.update_self] <;>
      simp only [addHalfEdge, updatePeerStatus, Function.update_self] <;> split_ifs <;>
      simp only [Finset.mem_insert_self, Finset.notMem_erase, true_iff, false_iff, hfull, hok, hmin] <;>
      omega
  · constructor <;> rw [addHalfEdge_peerEdges, Function.update_of_ne hx] <;>
      simp only [addHalfEdge, updatePeerStatus, Function.update_self] <;> split_ifs <;>
      simp only [Finset.mem_insert, Finset.mem_erase, hx, ne_eq, not_false_eq_true, true_and, false_or,
        hfull, hok, hmin]

theorem mem_storeEdge (hne : a ≠ b) (x y : ℕ) : y ∈ (g.storeEdge a b).peerEdges x ↔
    y ∈ g.peerEdges x ∨ ((g.peerEdges a).card < g.maxPeerEdges ∧ (g.peerEdges b).card < g.maxPeerEdges ∧
      ((x = a ∧ y = b) ∨ (x = b ∧ y = a))) := by
  rw [storeEdge]
  split_ifs with hroom
  · rw [addHalfEdge_peerEdges, addHalfEdge_peerEdges, Function.update_of_ne hne.symm]
    by_cases hb : x = b
    · subst hb
      rw [Function.update_self, Finset.mem_insert]
      simp [hroom, hne.symm, or_comm]
    · rw [Function.update_of_ne hb]
      by_cases ha : x = a
      · subst ha
        rw [Function.update_self, Finset.mem_insert]
        simp [hroom, hne, or_comm]
      · rw [Function.update_of_ne ha]
        simp [ha, hb]
  · simp only [iff_self_or]
    intro h
    exact absurd ⟨h.1, h.2.1⟩ hroom

theorem sameSettings_storeEdge : g.SameSettings (g.storeEdge a b) := by
  rw [storeEdge]
  split_ifs
  · exact sameSettings_addHalfEdge.trans sameSettings_addHalfEdge
  · exact .refl g

theorem storeEdge_inv (hg : g.Inv) (ha : a ∈ g.peers) (hb : b ∈ g.peers) (hne : a ≠ b)
    (hpub : a ∈ g.publicPeers ∨ b ∈ g.publicPeers) : (g.storeEdge a b).Inv := by
  have hsame := sameSettings_storeEdge (g := g) (a := a) (b := b)
  by_cases hroom : (g.peerEdges a).card < g.maxPeerEdges ∧ (g.peerEdges b).card < g.maxPeerEdges
  · refine ⟨?_, ?_, ?_, ?_, ?_, ?_, ?_, ?_, ?_⟩
    · rw [hsame.min]; exact hg.min_pos
    · rw [hsame.min, hsame.ok]; exact hg.min_le
    · rw [hsame.ok, hsame.max]; exact hg.ok_le
    · intro x y h
      rw [mem_storeEdge hne] at h ⊢
      rcases h with h | ⟨h, h', hxy⟩
      · exact .inl (hg.symm x y h)
      · exact .inr ⟨h, h', by tauto⟩
    · intro x h
      rw [mem_storeEdge hne] at h
      rcases h with h | ⟨-, -, ⟨rfl, h⟩ | ⟨rfl, h⟩⟩
      · exact hg.irrefl x h
      · exact hne h
      · exact hne h.symm
    · intro x y h
      rw [hsame.peers]
      rcases (mem_storeEdge hne x y).mp h with h | ⟨-, -, ⟨rfl, -⟩ | ⟨rfl, -⟩⟩
      · exact hg.mem x y h
      · exact ha
      · exact hb
    · intro x y h
      rw [hsame.publicPeers]
      rcases (mem_storeEdge hne x y).mp h with h | ⟨-, -, ⟨rfl, rfl⟩ | ⟨rfl, rfl⟩⟩
      · exact hg.not_private x y h
      · exact hpub
      · exact hpub.symm
    · intro x
      rw [hsame.max, storeEdge, if_pos hroom, addHalfEdge_peerEdges, addHalfEdge_peerEdges,
        Function.update_of_ne hne.symm]
      by_cases hxb : x = b
      · subst hxb
        rw [Function.update_self]
        exact (Finset.card_insert_le _ _).trans hroom.2
      · rw [Function.update_of_ne hxb]
        by_cases hxa : x = a
        · subst hxa
          rw [Function.update_self]
          exact (Finset.card_insert_le _ _).trans hroom.1
        · rw [Function.update_of_ne hxa]
          exact hg.degree_le x
    · rw [storeEdge, if_pos hroom]
      have hfirst := classified_addHalfEdge (b := b) hg.ok_le hroom.1 hg.classified
      have hhalf := sameSettings_addHalfEdge (g := g) (a := a) (b := b)
      refine classified_addHalfEdge ?_ ?_ hfirst
      · rw [hhalf.ok, hhalf.max]; exact hg.ok_le
      · rw [hhalf.max, addHalfEdge_peerEdges, Function.update_of_ne hne.symm]; exact hroom.2
  · rw [storeEdge, if_neg hroom]
    exact hg

end RandomDeploymentGraph

end Uno
