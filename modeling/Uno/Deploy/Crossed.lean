import Uno.Deploy.Graph
import Mathlib.Algebra.BigOperators.Group.List.Basic
import Mathlib.Data.List.ReduceOption

/-!
# The crossed and circular strategies

Both strategies arrange the public peers in a ring, in a shuffled order; the crossed one also links
each peer to the one across the ring. Private peers are then spread over the public ones, each
linked to one of them.

`PublicRing` is what the two generators have in common: the neighbours of an index are symmetric,
irreflexive, and contain the next index. `generateDeployment_realizes` derives the graph contract
from it, for any set of private peers.
-/

namespace Uno

/-- The order in which a set is iterated over. -/
structure SetOrder where
  list : Finset ℕ → List ℕ
  nodup : ∀ s, (list s).Nodup
  mem_iff : ∀ s a, a ∈ list s ↔ a ∈ s

/-- The orders a run of a strategy meets: those of the sets of peers, of the set of ports of each
peer, and the permutations of `random.shuffle`. -/
structure Orders where
  sets : SetOrder
  ports : ℕ → SetOrder
  shuffle : List ℕ → List ℕ
  shuffle_perm : ∀ l, (shuffle l).Perm l

/-- `list(peers)`, shuffled. -/
def Orders.shuffled (o : Orders) (peers : Finset ℕ) : List ℕ := o.shuffle (o.sets.list peers)

namespace CrossedDeploymentStrategy

def peerRight (peerI peerCount : ℕ) : Result ℕ := do
  pyAssert (peerI < peerCount)
  .ok ((peerI + 1) % peerCount)

def peerLeft (peerI peerCount : ℕ) : Result ℕ := do
  pyAssert (peerI < peerCount)
  if peerI = 0 then .ok (peerCount - 1) else .ok (peerI - 1)

def peerAcross (peerI peerCount : ℕ) : Result ℕ :=
  let offset := peerCount / 2
  if peerI + 1 ≤ offset then .ok ((peerI + offset) % peerCount) else .ok (peerI - offset)

def peerPeersCount (peerCount cellI : ℕ) : Result ℕ := do
  pyAssert (peerCount ≥ 2)
  if peerCount = 2 then .ok 1
  else if peerCount = 3 then .ok 2
  else if ¬ peerCount % 2 > 0 ∨ ¬ cellI = peerCount - 1 then .ok 3
  else .ok 2

def generateDeploymentAllPublic (o : Orders) (publicPeers : Finset ℕ) : Generated :=
  let peerCount := publicPeers.card
  ⟨o.shuffled publicPeers, peerPeersCount peerCount,
    [fun i => some <$> peerLeft i peerCount, fun i => some <$> peerRight i peerCount,
      fun i => some <$> peerAcross i peerCount]⟩

/-- How many private peers each public peer gets. -/
def privPartitionSizes (privateCount publicCount : ℕ) : List ℕ :=
  if privateCount ≥ publicCount then
    let partitionSize := privateCount / publicCount
    let remaining := privateCount % publicCount
    List.replicate remaining (partitionSize + 1) ++ List.replicate (publicCount - remaining) partitionSize
  else List.replicate privateCount 1 ++ List.replicate (publicCount - privateCount) 0

/-- The set `peer_ports[peer]`, empty when there is none. -/
def portsOf (ports : Dict ℕ (Finset ℕ)) (peer : ℕ) : Finset ℕ := (ports.get? peer).getD ∅

def addPort (ports : Dict ℕ (Finset ℕ)) (peer port : ℕ) : Dict ℕ (Finset ℕ) :=
  ports.set peer (insert port (portsOf ports peer))

/-- The ports of a public peer towards other public peers. -/
def addPublicPorts (pub : Generated) (peerIds : List ℕ) (pubPeer pubI : ℕ)
    (ports : Dict ℕ (Finset ℕ)) : Result (Dict ℕ (Finset ℕ)) := do
  let count ← pub.peersCount pubI
  pyAssert (count > 0)
  pyAssert (count ≤ 3)
  let portPeers ← (List.range count).mapM fun portI => do
    let connection ← pyIndex pub.connections portI
    connection pubI
  let pubPeerPeers := portPeers.reduceOption
  pyAssert (pubPeerPeers.length > 0)
  pubPeerPeers.foldlM (fun ports peerI => do
    let peer ← pyIndex peerIds peerI
    .ok (addPort ports pubPeer peer)) ports

/-- The number of private peers placed and `peer_ports`, after the public peer `x.1` at index
`x.2`. -/
def placePeer (pub : Generated) (peerIds sizes : List ℕ) (publicCount : ℕ)
    (acc : ℕ × Dict ℕ (Finset ℕ)) (x : ℕ × ℕ) : Result (ℕ × Dict ℕ (Finset ℕ)) := do
  let partitionSize ← pyIndex sizes x.2
  let ports := acc.2.set x.1 (portsOf acc.2 x.1)
  let ports ← (if publicCount > 1 then addPublicPorts pub peerIds x.1 x.2 ports else .ok ports)
  let partitionStart := publicCount + acc.1
  let privPeers := (peerIds.drop partitionStart).take partitionSize
  let ports := privPeers.foldl (fun ports priv => addPort (addPort ports x.1 priv) priv x.1) ports
  .ok (acc.1 + partitionSize, ports)

/-- `(peer, tuple(peer_ports[peer]))`. -/
def staticPeer (o : Orders) (peerPorts : Dict ℕ (Finset ℕ)) (peer : ℕ) : Result (ℕ × List ℕ) :=
  match peerPorts.get? peer with
  | some ports => .ok (peer, (o.ports peer).list ports)
  | none => .error (.key peer)

/-- `public_peers_id` with the count and the connections of the public peers, which are not used when
there is a single one. -/
def generatePublic (o : Orders) (allPublic : Finset ℕ → Generated) (publicPeers : Finset ℕ) :
    Result Generated :=
  if publicPeers.card > 1 then .ok (allPublic publicPeers)
  else match o.sets.list publicPeers with
    | [] => .error .stopIteration
    | peer :: _ => .ok ⟨[peer], emptyDeployment.peersCount, []⟩

/-- `_generate_deployment`, for either definition of `_generate_deployment_all_public`. -/
def generateDeployment (o : Orders) (allPublic : Finset ℕ → Generated)
    (peers privatePeers : Finset ℕ) : Result Generated := do
  let publicPeers := peers \ privatePeers
  let pub ← generatePublic o allPublic publicPeers
  if publicPeers.card > 1 ∧ privatePeers = ∅ then .ok pub
  else do
    let peerIds := pub.peers ++ o.shuffled privatePeers
    let sizes := privPartitionSizes privatePeers.card publicPeers.card
    let (_, peerPorts) ← (peerIds.take publicPeers.card).zipIdx.foldlM
      (placePeer pub peerIds sizes publicPeers.card) (0, ∅)
    let staticDeployment ← peerIds.mapM (staticPeer o peerPorts)
    .ok (StaticDeploymentStrategy.generateDeployment staticDeployment)

end CrossedDeploymentStrategy

namespace CircularDeploymentStrategy

open CrossedDeploymentStrategy

def peerPeersCount (peerCount _cellI : ℕ) : Result ℕ := do
  pyAssert (peerCount ≥ 2)
  if peerCount = 2 then .ok 1 else .ok 2

def generateDeploymentAllPublic (o : Orders) (publicPeers : Finset ℕ) : Generated :=
  let peerCount := publicPeers.card
  ⟨o.shuffled publicPeers, peerPeersCount peerCount,
    [fun i => some <$> peerLeft i peerCount, fun i => some <$> peerRight i peerCount]⟩

end CircularDeploymentStrategy

/-! ### Rings of public peers -/

/-- The neighbours of the indices of a ring of public peers, as the generator reports them. -/
structure PublicRing (g : Generated) (nbrs : ℕ → List ℕ) : Prop where
  nodup : g.peers.Nodup
  peersCount : ∀ i < g.peers.length, g.peersCount i = .ok (nbrs i).length
  connections : ∀ i < g.peers.length, ∀ (p j : ℕ), (nbrs i)[p]? = some j →
    ∃ connection : ℕ → Result (Option ℕ), g.connections[p]? = some connection ∧
      connection i = .ok (some j)
  lt : ∀ i < g.peers.length, ∀ j ∈ nbrs i, j < g.peers.length
  nbrs_nodup : ∀ i < g.peers.length, (nbrs i).Nodup
  irrefl : ∀ i < g.peers.length, i ∉ nbrs i
  symm : ∀ i < g.peers.length, ∀ j ∈ nbrs i, i ∈ nbrs j
  next : ∀ i, i + 1 < g.peers.length → i + 1 ∈ nbrs i
  length : ∀ i < g.peers.length, 0 < (nbrs i).length ∧ (nbrs i).length ≤ 3

namespace CrossedDeploymentStrategy

def leftIndex (n i : ℕ) : ℕ := if i = 0 then n - 1 else i - 1

def rightIndex (n i : ℕ) : ℕ := if i + 1 = n then 0 else i + 1

def acrossIndex (n i : ℕ) : ℕ := if i + 1 ≤ n / 2 then i + n / 2 else i - n / 2

theorem peerLeft_eq {n i : ℕ} (h : i < n) : peerLeft i n = .ok (leftIndex n i) := by
  simp only [peerLeft, h, decide_true, pyAssert_true, leftIndex]
  split_ifs <;> rfl

theorem peerRight_eq {n i : ℕ} (h : i < n) : peerRight i n = .ok (rightIndex n i) := by
  have hmod : (i + 1) % n = rightIndex n i := by
    rw [rightIndex]
    split_ifs with hlast
    · rw [hlast, Nat.mod_self]
    · exact Nat.mod_eq_of_lt (by omega)
  simp only [peerRight, h, decide_true, pyAssert_true, hmod]
  rfl

theorem peerAcross_eq (n i : ℕ) : peerAcross i n = .ok (acrossIndex n i) := by
  simp only [peerAcross, acrossIndex]
  split_ifs with hlow
  · rw [Nat.mod_eq_of_lt (by omega)]
  · rfl

def ringNbrs (n i : ℕ) : List ℕ :=
  if n = 2 then [leftIndex n i] else [leftIndex n i, rightIndex n i]

def crossedNbrs (n i : ℕ) : List ℕ :=
  if n < 4 ∨ (n % 2 > 0 ∧ i = n - 1) then ringNbrs n i
  else [leftIndex n i, rightIndex n i, acrossIndex n i]

theorem mem_ringNbrs {n i j : ℕ} (hn : 2 ≤ n) (hi : i < n) :
    j ∈ ringNbrs n i ↔ j < n ∧ (i + 1 = j ∨ j + 1 = i ∨ (i = 0 ∧ j + 1 = n) ∨ (j = 0 ∧ i + 1 = n)) := by
  simp only [ringNbrs, leftIndex, rightIndex]
  split_ifs <;> simp only [List.mem_cons, List.not_mem_nil, or_false] <;> omega

theorem mem_crossedNbrs {n i j : ℕ} (hn : 2 ≤ n) (hi : i < n) :
    j ∈ crossedNbrs n i ↔ j < n ∧ (i + 1 = j ∨ j + 1 = i ∨ (i = 0 ∧ j + 1 = n) ∨ (j = 0 ∧ i + 1 = n) ∨
      (4 ≤ n ∧ (j = i + n / 2 ∨ i = j + n / 2) ∧ (n % 2 > 0 → i + 1 ≠ n ∧ j + 1 ≠ n))) := by
  rw [crossedNbrs]
  split_ifs with hsmall
  · rw [mem_ringNbrs hn hi]
    omega
  · simp only [leftIndex, rightIndex, acrossIndex, List.mem_cons, List.not_mem_nil, or_false]
    split_ifs <;> omega

end CrossedDeploymentStrategy

theorem Orders.shuffled_nodup (o : Orders) (s : Finset ℕ) : (o.shuffled s).Nodup :=
  (o.shuffle_perm _).nodup_iff.mpr (o.sets.nodup s)

theorem Orders.mem_shuffled (o : Orders) (s : Finset ℕ) (a : ℕ) : a ∈ o.shuffled s ↔ a ∈ s := by
  rw [Orders.shuffled, (o.shuffle_perm _).mem_iff, o.sets.mem_iff]

theorem SetOrder.length (o : SetOrder) (s : Finset ℕ) : (o.list s).length = s.card := by
  have hfin : (o.list s).toFinset = s := by
    ext a
    rw [List.mem_toFinset, o.mem_iff]
  rw [← List.toFinset_card_of_nodup (o.nodup s), hfin]

theorem Orders.length_shuffled (o : Orders) (s : Finset ℕ) : (o.shuffled s).length = s.card := by
  rw [Orders.shuffled, (o.shuffle_perm _).length_eq, o.sets.length]

theorem CircularDeploymentStrategy.publicRing (o : Orders) {publicPeers : Finset ℕ}
    (hcard : 2 ≤ publicPeers.card) :
    PublicRing (generateDeploymentAllPublic o publicPeers)
      (CrossedDeploymentStrategy.ringNbrs publicPeers.card) := by
  have hlen : (generateDeploymentAllPublic o publicPeers).peers.length = publicPeers.card :=
    o.length_shuffled publicPeers
  refine ⟨o.shuffled_nodup publicPeers, ?_, ?_, ?_, ?_, ?_, ?_, ?_, ?_⟩ <;> rw [hlen]
  · intro i hi
    simp only [generateDeploymentAllPublic, peerPeersCount, CrossedDeploymentStrategy.ringNbrs, ge_iff_le,
      hcard, decide_true, pyAssert_true]
    split_ifs <;> rfl
  · intro i hi p j hp
    rw [CrossedDeploymentStrategy.ringNbrs] at hp
    match p with
    | 0 =>
      have hj : CrossedDeploymentStrategy.leftIndex publicPeers.card i = j := by
        split_ifs at hp <;> simp at hp <;> exact hp
      exact ⟨_, rfl, by rw [CrossedDeploymentStrategy.peerLeft_eq hi, hj]; rfl⟩
    | 1 =>
      have hj : CrossedDeploymentStrategy.rightIndex publicPeers.card i = j := by
        split_ifs at hp <;> simp at hp; exact hp
      exact ⟨_, rfl, by rw [CrossedDeploymentStrategy.peerRight_eq hi, hj]; rfl⟩
    | p + 2 => split_ifs at hp <;> simp at hp
  · intro i hi j hj
    exact ((CrossedDeploymentStrategy.mem_ringNbrs hcard hi).mp hj).1
  · intro i hi
    simp only [CrossedDeploymentStrategy.ringNbrs, CrossedDeploymentStrategy.leftIndex,
      CrossedDeploymentStrategy.rightIndex]
    split_ifs <;> simp <;> omega
  · intro i hi
    rw [CrossedDeploymentStrategy.mem_ringNbrs hcard hi]
    omega
  · intro i hi j hj
    rw [CrossedDeploymentStrategy.mem_ringNbrs hcard hi] at hj
    rw [CrossedDeploymentStrategy.mem_ringNbrs hcard hj.1]
    omega
  · intro i hi
    rw [CrossedDeploymentStrategy.mem_ringNbrs hcard (by omega)]
    omega
  · intro i hi
    rw [CrossedDeploymentStrategy.ringNbrs]
    split_ifs <;> simp

theorem CrossedDeploymentStrategy.publicRing (o : Orders) {publicPeers : Finset ℕ}
    (hcard : 2 ≤ publicPeers.card) :
    PublicRing (generateDeploymentAllPublic o publicPeers) (crossedNbrs publicPeers.card) := by
  have hlen : (generateDeploymentAllPublic o publicPeers).peers.length = publicPeers.card :=
    o.length_shuffled publicPeers
  refine ⟨o.shuffled_nodup publicPeers, ?_, ?_, ?_, ?_, ?_, ?_, ?_, ?_⟩ <;> rw [hlen]
  · intro i hi
    simp only [generateDeploymentAllPublic, peerPeersCount, crossedNbrs, ringNbrs, ge_iff_le, hcard,
      decide_true, pyAssert_true]
    split_ifs <;> first | rfl | omega
  · intro i hi p j hp
    rw [crossedNbrs, ringNbrs] at hp
    match p with
    | 0 =>
      have hj : leftIndex publicPeers.card i = j := by
        split_ifs at hp <;> simp at hp <;> exact hp
      exact ⟨_, rfl, by rw [peerLeft_eq hi, hj]; rfl⟩
    | 1 =>
      have hj : rightIndex publicPeers.card i = j := by
        split_ifs at hp <;> simp at hp <;> exact hp
      exact ⟨_, rfl, by rw [peerRight_eq hi, hj]; rfl⟩
    | 2 =>
      have hj : acrossIndex publicPeers.card i = j := by
        split_ifs at hp <;> simp at hp; exact hp
      exact ⟨_, rfl, by rw [peerAcross_eq, hj]; rfl⟩
    | p + 3 => split_ifs at hp <;> simp at hp
  · intro i hi j hj
    exact ((mem_crossedNbrs hcard hi).mp hj).1
  · intro i hi
    simp only [crossedNbrs, ringNbrs, leftIndex, rightIndex, acrossIndex]
    split_ifs <;> simp <;> omega
  · intro i hi
    rw [mem_crossedNbrs hcard hi]
    omega
  · intro i hi j hj
    rw [mem_crossedNbrs hcard hi] at hj
    rw [mem_crossedNbrs hcard hj.1]
    omega
  · intro i hi
    rw [mem_crossedNbrs hcard (by omega)]
    omega
  · intro i hi
    rw [crossedNbrs, ringNbrs]
    split_ifs <;> simp

end Uno
