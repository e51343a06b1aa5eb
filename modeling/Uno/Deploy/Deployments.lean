import Uno.Deploy.Placement
import Mathlib.Order.Lattice.Nat
import Mathlib.Data.Finset.Lattice.Fold

/-!
# Deployments of the crossed, circular and full-mesh strategies

For every set of peers with at least one public one, every choice of private peers and every order
in which the peers are shuffled and sets are iterated over, each of the three strategies generates a
`DeploymentGraph` (`generateDeployment_realizes`). Hence `deploy` returns a well-formed map when the
links of the graph fit in the backbone subnet, and raises otherwise (`deploy_wellFormed`).
-/

namespace Uno

/-! ### Full mesh -/

namespace FullMeshDeploymentStrategy

/-- The peers `a` connects to: all others, or all other public ones. -/
def meshPeers (peerIds : List ℕ) (privatePeers : Finset ℕ) (a : ℕ) : List ℕ :=
  peerIds.filter fun b => b ≠ a ∧ (a ∉ privatePeers ∨ b ∉ privatePeers)

def generateDeployment (o : Orders) (peers privatePeers : Finset ℕ) : Generated :=
  let peerIds := o.sets.list peers
  StaticDeploymentStrategy.generateDeployment
    (peerIds.map fun a => (a, meshPeers peerIds privatePeers a))

variable {peers privatePeers : Finset ℕ}

theorem mem_meshPeers {l : List ℕ} {a b : ℕ} :
    b ∈ meshPeers l privatePeers a ↔ b ∈ l ∧ b ≠ a ∧ (a ∉ privatePeers ∨ b ∉ privatePeers) := by
  simp [meshPeers]

/-- The full mesh; any public peer reaches all others in one step. -/
def graph (o : Orders) {root : ℕ} (hroot : root ∈ peers \ privatePeers) :
    DeploymentGraph peers privatePeers :=
  DeploymentGraph.ofPorts (o.sets.list peers) (meshPeers (o.sets.list peers) privatePeers)
    (o.sets.nodup peers) (o.sets.mem_iff peers) (fun _ _ => (o.sets.nodup peers).filter _)
    (fun a ha b hb => by
      rw [mem_meshPeers] at hb ⊢
      exact ⟨hb.1, ha, hb.2.1.symm, hb.2.2.symm⟩)
    (fun a _ ha => (mem_meshPeers.mp ha).2.1 rfl)
    (fun a _ b hb => (mem_meshPeers.mp hb).2.2)
    root
    (fun a ha => by
      obtain ⟨hmem, hpub⟩ := Finset.mem_sdiff.mp hroot
      by_cases h : a = root
      · rw [h]
      · exact .single ⟨(o.sets.mem_iff peers root).mpr hmem, mem_meshPeers.mpr ⟨ha, h, .inl hpub⟩⟩)

theorem realizes (o : Orders) {root : ℕ} (hroot : root ∈ peers \ privatePeers) :
    (generateDeployment o peers privatePeers).Realizes (graph o hroot).adj := by
  refine StaticDeploymentStrategy.realizes fun a nbrs b hmem hb => ?_
  obtain ⟨nbrs', hmem', -⟩ := (graph o hroot).symm a b ⟨nbrs, hmem, hb⟩
  exact List.mem_map_of_mem (f := Prod.fst) hmem'

end FullMeshDeploymentStrategy

/-! ### The three strategies -/

/-- The deployment strategies that derive their links from the set of peers without a random graph. -/
inductive DeploymentStrategyKind where
  | crossed
  | circular
  | fullMesh
  deriving DecidableEq

namespace DeploymentStrategyKind

def generateDeployment (o : Orders) (peers privatePeers : Finset ℕ) :
    DeploymentStrategyKind → Result Generated
  | crossed => CrossedDeploymentStrategy.generateDeployment o
      (CrossedDeploymentStrategy.generateDeploymentAllPublic o) peers privatePeers
  | circular => CrossedDeploymentStrategy.generateDeployment o
      (CircularDeploymentStrategy.generateDeploymentAllPublic o) peers privatePeers
  | fullMesh => .ok (FullMeshDeploymentStrategy.generateDeployment o peers privatePeers)

/-- `DeploymentStrategy.deploy`. -/
def deploy (o : Orders) (strategy : DeploymentStrategyKind) (peers privatePeers : Finset ℕ)
    (networkMap : P2pLinkAllocationMap) : Result (P2pLinksMap × P2pLinkAllocationMap) := do
  let g ← (if (peers \ privatePeers).card > 0 then strategy.generateDeployment o peers privatePeers
    else .ok emptyDeployment)
  g.deploy networkMap

variable {peers privatePeers : Finset ℕ}

theorem generateDeployment_realizes (o : Orders) (strategy : DeploymentStrategyKind)
    (hsub : privatePeers ⊆ peers) (hpub : (peers \ privatePeers).Nonempty) :
    ∃ (g : Generated) (graph : DeploymentGraph peers privatePeers),
      strategy.generateDeployment o peers privatePeers = .ok g ∧ g.Realizes graph.adj := by
  cases strategy with
  | crossed =>
    exact CrossedDeploymentStrategy.generateDeployment_realizes o hsub hpub
      (CrossedDeploymentStrategy.publicRing o) o.mem_shuffled
  | circular =>
    exact CrossedDeploymentStrategy.generateDeployment_realizes o hsub hpub
      (CircularDeploymentStrategy.publicRing o) o.mem_shuffled
  | fullMesh =>
    obtain ⟨root, hroot⟩ := hpub
    exact ⟨_, FullMeshDeploymentStrategy.graph o hroot, rfl, FullMeshDeploymentStrategy.realizes o hroot⟩

/-- Every strategy has a graph that it deploys on a fresh network map, whatever the subnet, as far as
the subnet has room for its links. -/
theorem deploy_realizes (o : Orders) (strategy : DeploymentStrategyKind) (hsub : privatePeers ⊆ peers)
    (hpub : (peers \ privatePeers).Nonempty) :
    ∃ graph : DeploymentGraph peers privatePeers, ∀ subnet m, P2pLinkAllocationMap.new subnet = .ok m →
      (graph.links.card ≤ subnet.capacity ∧ ∃ res m', strategy.deploy o peers privatePeers m = .ok (res, m') ∧
        m'.Allocated ∧ Deploys m' graph.adj res) ∨
      (subnet.capacity < graph.links.card ∧ ∃ e, strategy.deploy o peers privatePeers m = .error e) := by
  obtain ⟨g, graph, hg, hreal⟩ := generateDeployment_realizes o strategy hsub hpub
  refine ⟨graph, fun subnet m hnew => ?_⟩
  rw [deploy, if_pos hpub.card_pos, hg]
  exact Generated.deploy_realizes hreal hnew

/-- `deploy` returns a well-formed map exactly when the links of the generated graph fit in the
backbone subnet, and raises otherwise. -/
theorem deploy_wellFormed (o : Orders) (strategy : DeploymentStrategyKind) (hsub : privatePeers ⊆ peers)
    (hpub : (peers \ privatePeers).Nonempty) :
    ∃ graph : DeploymentGraph peers privatePeers, ∀ subnet m, P2pLinkAllocationMap.new subnet = .ok m →
      (graph.links.card ≤ subnet.capacity → ∃ res m', strategy.deploy o peers privatePeers m = .ok (res, m') ∧
        WellFormed peers privatePeers res ∧ ∀ a b, res.ListsPeer a b ↔ Lists graph.adj a b) ∧
      (subnet.capacity < graph.links.card → ∃ e, strategy.deploy o peers privatePeers m = .error e) := by
  obtain ⟨graph, h⟩ := deploy_realizes o strategy hsub hpub
  refine ⟨graph, fun subnet m hnew => ?_⟩
  rcases h subnet m hnew with ⟨hle, res, m', hok, -, hdep⟩ | ⟨hlt, e, herr⟩
  · exact ⟨fun _ => ⟨res, m', hok, hdep.wellFormed, fun a b => hdep.listsPeer_iff⟩,
      fun hlt => absurd hle (Nat.not_le.mpr hlt)⟩
  · exact ⟨fun hle => absurd hle (Nat.not_le.mpr hlt), fun _ => ⟨e, herr⟩⟩

end DeploymentStrategyKind

/-! ### Runs in ascending order -/

/-- Sets iterated over in ascending order. -/
def SetOrder.ascending : SetOrder where
  list s := (List.range (s.sup id + 1)).filter (· ∈ s)
  nodup _ := List.nodup_range.filter _
  mem_iff s a := by
    simp only [List.mem_filter, List.mem_range, decide_eq_true_eq, and_iff_right_iff_imp]
    exact fun ha => Nat.lt_succ_of_le (Finset.le_sup (f := id) ha)

/-- Shuffles that change nothing. -/
def Orders.unshuffled : Orders := ⟨.ascending, fun _ => .ascending, id, fun l => .refl l⟩

/-- `10.0.0.0/prefixlen`. -/
def network10 (prefixlen : ℕ) (h : 8 ≤ prefixlen ∧ prefixlen ≤ 32) : IPv4Network where
  networkAddress := ⟨10 * 2 ^ 24, by norm_num⟩
  prefixlen := prefixlen
  le := h.2
  aligned := Dvd.dvd.mul_left (pow_dvd_pow 2 (by omega)) 10

theorem network10_20 : 8 ≤ 20 ∧ 20 ≤ 32 := by decide

theorem network10_22 : 8 ≤ 22 ∧ 22 ≤ 32 := by decide

namespace DeploymentStrategyKind

/-- A full mesh of three public peers does not fit in a `/30` subnet, which has one block left. -/
theorem deploy_fullMesh_exceeds :
    ∃ m, P2pLinkAllocationMap.new (network10 30 (by decide)) = .ok m ∧
      fullMesh.deploy .unshuffled {1, 2, 3} ∅ m =
        .error (.runtime "exceeded allocated backbone subnet") :=
  ⟨_, rfl, rfl⟩

/-- A crossed deployment of five public and two private peers in a `/16` subnet. -/
theorem deploy_wellFormed_crossed :
    ∃ m res m', P2pLinkAllocationMap.new (network10 16 (by decide)) = .ok m ∧
      crossed.deploy .unshuffled {1, 2, 3, 4, 5, 6, 7} {6, 7} m = .ok (res, m') ∧
      WellFormed {1, 2, 3, 4, 5, 6, 7} {6, 7} res := by
  obtain ⟨graph, h⟩ := deploy_wellFormed .unshuffled crossed
    (by decide : ({6, 7} : Finset ℕ) ⊆ {1, 2, 3, 4, 5, 6, 7}) (by decide)
  obtain ⟨hfits, hexceeds⟩ := h (network10 16 (by decide)) _ rfl
  rcases Nat.lt_or_ge (network10 16 (by decide)).capacity graph.links.card with hlt | hle
  · obtain ⟨e, he⟩ := hexceeds hlt
    cases he
  · obtain ⟨res, m', hok, hwell, -⟩ := hfits hle
    exact ⟨_, res, m', rfl, hok, hwell⟩

end DeploymentStrategyKind

end Uno
