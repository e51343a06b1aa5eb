import Uno.Deploy.Strategy

/-!
# Well-formed deployments

`WellFormed` is the contract of a deployment map, read off the map alone. A map that deploys a
`DeploymentGraph` satisfies it (`Deploys.wellFormed`), and its two entries for a link hold the same
block of addresses from opposite sides (`Deploys.ends`).

`StaticDeploymentStrategy` generates a deployment from a list of peers with the peers they connect
to; it realizes every graph given to it (`StaticDeploymentStrategy.realizes`).
-/

namespace Uno

open PairedValuesMap

/-- Peer `a` lists peer `b`. -/
def P2pLinksMap.ListsPeer (d : P2pLinksMap) (a b : ℕ) : Prop :=
  ∃ p, d.get? a = some p ∧ b ∈ p.peers.keys

/-- The graph contract of a deployment of `peers`. -/
structure WellFormed (peers privatePeers : Finset ℕ) (d : P2pLinksMap) : Prop where
  vertices : ∀ a, a ∈ d.keys ↔ a ∈ peers
  symm : ∀ a b, d.ListsPeer a b → d.ListsPeer b a
  irrefl : ∀ a, ¬ d.ListsPeer a a
  not_private : ∀ a b, d.ListsPeer a b → a ∉ privatePeers ∨ b ∉ privatePeers
  connected : ∀ a ∈ peers, ∀ b ∈ peers, Relation.ReflTransGen d.ListsPeer a b
  ports : ∀ a p, d.get? a = some p → p.peers.values.map Link.port = List.range p.peers.size
  degree : ∀ a p, d.get? a = some p → p.peers.size < peers.card

theorem LinksTo.size {m : P2pLinkAllocationMap} {a : ℕ} {nbrs : List ℕ} {links : Dict ℕ Link}
    (h : LinksTo m a nbrs links) : links.size = nbrs.length := by
  rw [← h.keys, Dict.keys, List.length_map, Dict.size]

theorem LinksTo.ports {m : P2pLinkAllocationMap} {a : ℕ} {nbrs : List ℕ} {links : Dict ℕ Link}
    (h : LinksTo m a nbrs links) : links.values.map Link.port = List.range links.size := by
  have hlen : links.entries.length = links.size := rfl
  apply List.ext_getElem
  · rw [List.length_map, Dict.values, List.length_map, List.length_range, hlen]
  · intro i hi _
    rw [List.length_map, Dict.values, List.length_map] at hi
    have hkey : nbrs[i]? = some links.entries[i].1 := by
      rw [← h.keys, Dict.keys, List.getElem?_map, List.getElem?_eq_getElem hi]
      rfl
    obtain ⟨value, -, hget⟩ := h.get i _ hkey
    have hentry : links.get? links.entries[i].1 = some links.entries[i].2 :=
      Dict.get?_eq_some_iff.mpr (List.getElem_mem hi)
    rw [hentry, Option.some.injEq] at hget
    simp only [Dict.values, List.getElem_map, List.getElem_range, hget, mkLink]

namespace Deploys

variable {peers privatePeers : Finset ℕ} {graph : DeploymentGraph peers privatePeers}
  {m : P2pLinkAllocationMap} {res : P2pLinksMap}

theorem exists_entry (h : Deploys m graph.adj res) {a : ℕ} {nbrs : List ℕ}
    (hmem : (a, nbrs) ∈ graph.adj) :
    ∃ n links, res.get? a = some ⟨n, links⟩ ∧ LinksTo m a nbrs links := by
  obtain ⟨n, hn⟩ := List.mem_iff_getElem?.mp hmem
  exact ⟨n, h.get n a nbrs hn⟩

theorem exists_nbrs (h : Deploys m graph.adj res) {a : ℕ} {p : DeployedPeer}
    (hp : res.get? a = some p) : ∃ nbrs, (a, nbrs) ∈ graph.adj ∧ LinksTo m a nbrs p.peers := by
  have hkey : a ∈ graph.adj.map Prod.fst := by
    rw [← h.keys]
    exact Dict.mem_keys_iff.mpr ⟨p, hp⟩
  obtain ⟨⟨a, nbrs⟩, hmem, rfl⟩ := List.mem_map.mp hkey
  obtain ⟨n, links, hlinks, hto⟩ := h.exists_entry hmem
  rw [hlinks, Option.some.injEq] at hp
  exact ⟨nbrs, hmem, hp ▸ hto⟩

theorem listsPeer_iff (h : Deploys m graph.adj res) {a b : ℕ} :
    res.ListsPeer a b ↔ Lists graph.adj a b := by
  constructor
  · rintro ⟨p, hp, hb⟩
    obtain ⟨nbrs, hmem, hto⟩ := h.exists_nbrs hp
    exact ⟨nbrs, hmem, hto.keys ▸ hb⟩
  · rintro ⟨nbrs, hmem, hb⟩
    obtain ⟨n, links, hlinks, hto⟩ := h.exists_entry hmem
    exact ⟨_, hlinks, hto.keys.symm ▸ hb⟩

theorem wellFormed (h : Deploys m graph.adj res) : WellFormed peers privatePeers res := by
  have hlists : res.ListsPeer = Lists graph.adj := by
    funext a b
    exact propext h.listsPeer_iff
  refine ⟨?_, ?_, ?_, ?_, ?_, ?_, ?_⟩
  · intro a
    rw [h.keys]
    exact graph.vertices a
  · rw [hlists]; exact graph.symm
  · rw [hlists]; exact graph.irrefl
  · rw [hlists]; exact graph.not_private
  · rw [hlists]; exact graph.connected
  · intro a p hp
    obtain ⟨nbrs, -, hto⟩ := h.exists_nbrs hp
    exact hto.ports
  · intro a p hp
    obtain ⟨nbrs, hmem, hto⟩ := h.exists_nbrs hp
    have ha : a ∈ peers := (graph.vertices a).mp (List.mem_map_of_mem (f := Prod.fst) hmem)
    have hsub : nbrs.toFinset ⊆ peers.erase a := by
      intro b hb
      have hab : Lists graph.adj a b := ⟨nbrs, hmem, List.mem_toFinset.mp hb⟩
      obtain ⟨nbrs', hmem', -⟩ := graph.symm a b hab
      refine Finset.mem_erase.mpr ⟨?_, ?_⟩
      · rintro rfl
        exact graph.irrefl _ hab
      · exact (graph.vertices b).mp (List.mem_map_of_mem (f := Prod.fst) hmem')
    calc p.peers.size = nbrs.toFinset.card := by
          rw [hto.size, List.toFinset_card_of_nodup (graph.nbrs_nodup a nbrs hmem)]
      _ ≤ (peers.erase a).card := Finset.card_le_card hsub
      _ < peers.card := Finset.card_erase_lt_of_mem ha

theorem ends (h : Deploys m graph.adj res) {a b : ℕ} (hab : res.ListsPeer a b) :
    ∃ pa pb i j value, res.get? a = some pa ∧ res.get? b = some pb ∧
      m.pairs.get? (pairKey a b) = some value ∧ pa.peers.get? b = some (mkLink a b i value) ∧
      pb.peers.get? a = some (mkLink b a j value) := by
  have side : ∀ a b, res.ListsPeer a b → ∃ pa i value, res.get? a = some pa ∧
      m.pairs.get? (pairKey a b) = some value ∧ pa.peers.get? b = some (mkLink a b i value) := by
    rintro a b ⟨p, hp, hb⟩
    obtain ⟨nbrs, -, hto⟩ := h.exists_nbrs hp
    rw [hto.keys] at hb
    obtain ⟨i, hi⟩ := List.mem_iff_getElem?.mp hb
    obtain ⟨value, hvalue, hlink⟩ := hto.get i b hi
    exact ⟨p, i, value, hp, hvalue, hlink⟩
  obtain ⟨pa, i, value, hpa, hvalue, hlink⟩ := side a b hab
  obtain ⟨pb, j, value', hpb, hvalue', hlink'⟩ := side b a (h.wellFormed.symm a b hab)
  rw [pairKey_comm, hvalue, Option.some.injEq] at hvalue'
  subst hvalue'
  exact ⟨pa, pb, i, j, value, hpa, hpb, hvalue, hlink, hlink'⟩

end Deploys

/-! ### Graphs from port lists -/

section ports
variable {peers privatePeers : Finset ℕ}

theorem lists_map_iff {l : List ℕ} {ports : ℕ → List ℕ} {a b : ℕ} :
    Lists (l.map fun p => (p, ports p)) a b ↔ a ∈ l ∧ b ∈ ports a := by
  constructor
  · rintro ⟨nbrs, hmem, hb⟩
    obtain ⟨p, hp, heq⟩ := List.mem_map.mp hmem
    obtain ⟨rfl, rfl⟩ := Prod.mk.inj heq
    exact ⟨hp, hb⟩
  · rintro ⟨ha, hb⟩
    exact ⟨ports a, List.mem_map.mpr ⟨a, ha, rfl⟩, hb⟩

/-- The graph in which each peer of `l` lists its ports; it is enough that one peer reaches all. -/
def DeploymentGraph.ofPorts (l : List ℕ) (ports : ℕ → List ℕ) (hnodup : l.Nodup)
    (hmem : ∀ a, a ∈ l ↔ a ∈ peers) (hports : ∀ a ∈ l, (ports a).Nodup)
    (hsymm : ∀ a ∈ l, ∀ b ∈ ports a, b ∈ l ∧ a ∈ ports b) (hirrefl : ∀ a ∈ l, a ∉ ports a)
    (hpriv : ∀ a ∈ l, ∀ b ∈ ports a, a ∉ privatePeers ∨ b ∉ privatePeers) (root : ℕ)
    (hroot : ∀ a ∈ l, Relation.ReflTransGen (fun x y => x ∈ l ∧ y ∈ ports x) root a) :
    DeploymentGraph peers privatePeers where
  adj := l.map fun p => (p, ports p)
  nodup := by simpa [Function.comp_def] using hnodup
  vertices a := by simpa [Function.comp_def] using hmem a
  nbrs_nodup a nbrs h := by
    obtain ⟨p, hp, heq⟩ := List.mem_map.mp h
    obtain ⟨rfl, rfl⟩ := Prod.mk.inj heq
    exact hports p hp
  symm a b h := by
    rw [lists_map_iff] at h ⊢
    exact hsymm a h.1 b h.2
  irrefl a h := by
    rw [lists_map_iff] at h
    exact hirrefl a h.1 h.2
  not_private a b h := by
    rw [lists_map_iff] at h
    exact hpriv a h.1 b h.2
  connected a ha b hb := by
    have hlists : Lists (l.map fun p => (p, ports p)) = fun x y => x ∈ l ∧ y ∈ ports x := by
      funext x y
      exact propext lists_map_iff
    have : Std.Symm fun x y => x ∈ l ∧ y ∈ ports x := ⟨fun x y h => hsymm x h.1 y h.2⟩
    rw [hlists]
    exact (Std.Symm.symm _ _ (hroot a ((hmem a).mpr ha))).trans (hroot b ((hmem b).mpr hb))

end ports

/-! ### Static deployments -/

namespace StaticDeploymentStrategy

/-- The generator of port `peerBi`. -/
def peerGenerator (staticDeployment : List (ℕ × List ℕ)) (peerBi peerAi : ℕ) : Result (Option ℕ) :=
  match staticDeployment[peerAi]? with
  | none => .ok none
  | some (_, staticPeers) => do
    let res ← pyIndex staticPeers peerBi
    .ok ((staticDeployment.map Prod.fst).idxOf? res)

def generateDeployment (staticDeployment : List (ℕ × List ℕ)) : Generated :=
  if staticDeployment = [] then emptyDeployment
  else
    let cellPeersCount := fun n => do
      let (_, cellPeers) ← pyIndex staticDeployment n
      .ok cellPeers.length
    let maxPeersCount := (staticDeployment.map fun e => e.2.length).foldr max 0
    ⟨staticDeployment.map Prod.fst, cellPeersCount,
      (List.range maxPeersCount).map (peerGenerator staticDeployment)⟩

theorem le_foldr_max {l : List ℕ} {n : ℕ} (h : n ∈ l) : n ≤ l.foldr max 0 := by
  induction l with
  | nil => simp at h
  | cons a rest ih =>
    rcases List.mem_cons.mp h with rfl | hrest
    · exact le_max_left _ _
    · exact le_trans (ih hrest) (le_max_right _ _)

theorem realizes {adj : List (ℕ × List ℕ)}
    (hclosed : ∀ a nbrs b, (a, nbrs) ∈ adj → b ∈ nbrs → b ∈ adj.map Prod.fst) :
    (generateDeployment adj).Realizes adj := by
  by_cases hempty : adj = []
  · subst hempty
    refine ⟨rfl, ?_, ?_⟩
    · intro n a nbrs hn; simp at hn
    · intro n a nbrs i b hn; simp at hn
  · rw [generateDeployment, if_neg hempty]
    refine ⟨rfl, ?_, ?_⟩
    · intro n a nbrs hn
      simp only [pyIndex_eq_ok hn, bind, Except.bind]
    · intro n a nbrs i b hn hi
      have hmem := List.mem_of_getElem? hn
      obtain ⟨hilt, -⟩ := List.getElem?_eq_some_iff.mp hi
      have hmax : nbrs.length ≤ (adj.map fun e => e.2.length).foldr max 0 :=
        le_foldr_max (List.mem_map_of_mem (f := fun e : ℕ × List ℕ => e.2.length) hmem)
      have hb : ((adj.map Prod.fst).idxOf? b).isSome := by
        rw [List.isSome_idxOf?]
        exact hclosed a nbrs b hmem (List.mem_of_getElem? hi)
      obtain ⟨k, hk⟩ := Option.isSome_iff_exists.mp hb
      refine ⟨peerGenerator adj i, k, ?_, ?_, ?_⟩
      · rw [List.getElem?_map, List.getElem?_range (by omega)]
        rfl
      · simp only [peerGenerator, hn, pyIndex_eq_ok hi, bind, Except.bind, hk]
      · obtain ⟨hlt, hget, -⟩ := List.idxOf?_eq_some_iff.mp hk
        exact List.getElem?_eq_some_iff.mpr ⟨hlt, hget⟩

end StaticDeploymentStrategy

end Uno
