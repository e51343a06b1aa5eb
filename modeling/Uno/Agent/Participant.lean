import Uno.Deploy.Addressing
import Uno.Vpn.CentralEnds
import Uno.Vpn.Ends

/-!
# Initial peers of a participant

A participant of a cell announces itself to the neighbours on the cell's links, to the first link of every other
deployed cell, and to the registry. The addresses are read off the records of all cells: those in which the cell is
the neighbour, and those with index 0; the cell's own are taken out again (`mem_backbonePeers_iff`). Without a root
VPN there is no list at all (`initial_peers_iff`).
-/

namespace Uno

/-- The order in which a set of addresses is iterated over. -/
structure AddressOrder where
  list : Finset IPAddress → List IPAddress
  mem_iff : ∀ s a, a ∈ list s ↔ a ∈ s

inductive ParticipantOwner where
  | uvn
  | cell (id : ℕ)

/-- What a participant reads from its agent or registry. -/
structure Participant where
  owner : ParticipantOwner
  deployment : P2pLinksMap
  backboneVpnConfigs : List WireGuardConfig
  rootVpn : Option CentralizedVpnConfig
  rekeyedRootVpn : Option CentralizedVpnConfig

namespace Participant

open CentralizedVpnConfig (Config)

/-- `Registry.root_vpn_config`; for a cell, the variable it returns is set only when there is a root VPN. -/
def rootVpnConfig (p : Participant) : Result Config :=
  match p.owner with
  | .uvn =>
    match p.rekeyedRootVpn, p.rootVpn with
    | some v, _ => v.rootConfig
    | none, some v => v.rootConfig
    | none, none => .error (.attribute "'NoneType' object has no attribute 'root_config'")
  | .cell id =>
    match p.rootVpn with
    | some v => v.peerConfig id
    | none => .error (.unboundLocal "vpn_config")

/-- The addresses of the records of index 0, and of those for a neighbour `id`. -/
def candidates (deployment : P2pLinksMap) (id : ℕ) : List IPAddress :=
  deployment.values.flatMap fun peerA =>
    (peerA.peers.entries.filter fun x => x.2.port = 0 ∨ x.1 = id).map fun x => .v4 x.2.address

/-- The addresses of the interfaces of the backbone. -/
def backboneAddresses (p : Participant) : List IPAddress := p.backboneVpnConfigs.map fun cfg => .v4 cfg.intf.address

def backbonePeers (p : Participant) (id : ℕ) : Finset IPAddress :=
  (candidates p.deployment id).toFinset \ p.backboneAddresses.toFinset

def initialPeers (order : AddressOrder) (p : Participant) : Result (List IPAddress) := do
  match p.owner with
  | .cell id =>
    let cfg ← p.rootVpnConfig
    let root ← pyIndex cfg.peers 0
    .ok (order.list (p.backbonePeers id) ++ [root.address])
  | .uvn =>
    let cfg ← p.rootVpnConfig
    .ok (cfg.peers.map fun peer => peer.address)

/-! ### What should be listed -/

/-- The other end of one of the cell's links. -/
def IsNeighbour (d : P2pLinksMap) (id : ℕ) (a : IPAddress) : Prop :=
  ∃ p b link, d.get? id = some p ∧ p.peers.get? b = some link ∧ a = .v4 link.peerAddress

/-- The address of the link of index 0 of a cell. -/
def IsFirst (d : P2pLinksMap) (b : ℕ) (a : IPAddress) : Prop :=
  ∃ p e link, d.get? b = some p ∧ p.peers.get? e = some link ∧ link.port = 0 ∧ a = .v4 link.address

/-- The address of the registry in the root VPN. -/
def IsRootAddress (p : Participant) (a : IPAddress) : Prop := ∃ v, p.rootVpn = some v ∧ v.rootIp = .ok a

/-- An address of the cell in the root VPN, or in its particles VPN. -/
def IsCentral (p : Participant) (id : ℕ) (particlesVpn : Option CentralizedVpnConfig) (a : IPAddress) : Prop :=
  (∃ v, p.rootVpn = some v ∧ v.peerIp id = .ok a) ∨ ∃ v, particlesVpn = some v ∧ v.rootIp = .ok a

/-- The initial peers of the participant of a cell are the neighbours on its links, the first link of every other cell
that has one, and the registry; none is an address of the cell. -/
structure FindsPeers (order : AddressOrder) (p : Participant) (id : ℕ) (particlesVpn : Option CentralizedVpnConfig)
    (peers : List IPAddress) : Prop where
  eq : p.initialPeers order = .ok peers
  mem_iff : ∀ a, a ∈ peers ↔
    IsNeighbour p.deployment id a ∨ (∃ b ≠ id, IsFirst p.deployment b a) ∨ p.IsRootAddress a
  first : ∀ b e, p.deployment.ListsPeer b e → ∃ a, IsFirst p.deployment b a
  not_own : ∀ a ∈ peers, a ∉ p.backboneAddresses ∧ ¬p.IsCentral id particlesVpn a

/-! ### The backbone -/

section backbone
variable {source : KeySource} {vpn : P2pVpnConfig} {k k' : P2pVpnKeyMaterial} {id : ℕ}

theorem map_address_linkSteps {l : List (ℕ × Link)} {cfgs cfgs' : List WireGuardConfig}
    (h : l.foldlM (vpn.linkStep source id) (cfgs, k) = .ok (cfgs', k')) :
    cfgs'.map (·.intf.address) = cfgs.map (·.intf.address) ++ l.map (·.2.address) := by
  induction l generalizing cfgs k with
  | nil =>
    cases h
    rw [List.map_nil, List.append_nil]
  | cons x rest ih =>
    rw [List.foldlM_cons] at h
    obtain ⟨⟨cfgs₁, k₁⟩, hstep, hrest⟩ := Except.bind_eq_ok_iff.mp h
    rw [ih hrest]
    unfold P2pVpnConfig.linkStep at hstep
    simp only [Except.bind_eq_ok_iff, Except.ok.injEq, Prod.mk.injEq] at hstep
    obtain ⟨_, -, _, -, _, -, _, -, _, -, _, -, rfl, -⟩ := hstep
    rw [List.map_append, List.append_assoc]
    rfl

theorem map_address_peerConfig {cfgs : List WireGuardConfig} {p : DeployedPeer}
    (h : vpn.peerConfig source id k = .ok (cfgs, k')) (hp : vpn.deployment.get? id = some p) :
    cfgs.map (·.intf.address) = p.peers.values.map Link.address := by
  rw [P2pVpnConfig.peerConfig, hp] at h
  rw [map_address_linkSteps h, Dict.values, List.map_map]
  rfl

end backbone

/-- The participant of a cell, with its configurations, in a deployment of cells. -/
structure IsDeployed (o : Orders) (strategy : DeploymentStrategyKind) (settings : VpnSettings) (cells : Dict ℕ Cell)
    (p : Participant) (id : ℕ) : Prop where
  owner : p.owner = .cell id
  deployment : redeploy o strategy settings cells = .ok p.deployment
  mem_keys : id ∈ p.deployment.keys
  backbone : ∃ source vpn k k', vpn.deployment = p.deployment ∧
    P2pVpnConfig.peerConfig source vpn id k = .ok (p.backboneVpnConfigs, k')
  root : ∀ v, p.rootVpn = some v → ∃ cfg, v.peerConfig id = .ok cfg

theorem mem_candidates {d : P2pLinksMap} {id : ℕ} {a : IPAddress} :
    a ∈ candidates d id ↔ ∃ b p e link, d.get? b = some p ∧ p.peers.get? e = some link ∧
      (link.port = 0 ∨ e = id) ∧ a = .v4 link.address := by
  simp only [candidates, List.mem_flatMap, Dict.values, List.mem_map, List.mem_filter, decide_eq_true_eq]
  constructor
  · rintro ⟨p, ⟨⟨b, p'⟩, hp, rfl⟩, ⟨e, link⟩, ⟨hlink, hor⟩, rfl⟩
    exact ⟨b, p', e, link, Dict.get?_eq_some_iff.mpr hp, Dict.get?_eq_some_iff.mpr hlink, hor, rfl⟩
  · rintro ⟨b, p, e, link, hp, hlink, hor, rfl⟩
    exact ⟨p, ⟨(b, p), Dict.get?_eq_some_iff.mp hp, rfl⟩, (e, link), ⟨Dict.get?_eq_some_iff.mp hlink, hor⟩, rfl⟩

section deployed
variable {o : Orders} {strategy : DeploymentStrategyKind} {settings : VpnSettings} {cells : Dict ℕ Cell}
  {d : P2pLinksMap} {p : Participant} {id : ℕ}

theorem distinctAddresses_of_redeploy (h : redeploy o strategy settings cells = .ok d) : DistinctAddresses d := by
  obtain ⟨m, hnew, h⟩ := Except.bind_eq_ok_iff.mp h
  obtain ⟨⟨links, m'⟩, hdeploy, heq⟩ := Except.bind_eq_ok_iff.mp h
  obtain rfl := Except.ok.inj heq
  obtain ⟨g, -, hg⟩ := Except.bind_eq_ok_iff.mp hdeploy
  exact Generated.deploy_addresses (P2pLinkAllocationMap.allocated_new hnew).1 hg

theorem exists_mirror (h : redeploy o strategy settings cells = .ok d) {a b : ℕ} {e : DeployedPeer} {link : Link}
    (he : d.get? a = some e) (hlink : e.peers.get? b = some link) :
    a ≠ b ∧ ∃ e' link', d.get? b = some e' ∧ e'.peers.get? a = some link' ∧ link'.address = link.peerAddress ∧
      link'.peerAddress = link.address := by
  obtain ⟨l⟩ := linkedCells_of_redeploy h ⟨e, he, Dict.mem_keys_iff.mpr ⟨link, hlink⟩⟩
  obtain ⟨hto, hfrom, -⟩ := (distinctAddresses_of_redeploy h).mirrored a e b link _ _ he hlink l.get_b l.link_b
  exact ⟨l.ne, _, _, l.get_b, l.link_b, hfrom.symm, hto.symm⟩

theorem IsDeployed.mem_backboneAddresses (h : IsDeployed o strategy settings cells p id) {a : IPAddress} :
    a ∈ p.backboneAddresses ↔
      ∃ e b link, p.deployment.get? id = some e ∧ e.peers.get? b = some link ∧ a = .v4 link.address := by
  obtain ⟨source, vpn, k, k', hvpn, hcfgs⟩ := h.backbone
  obtain ⟨e, he⟩ := Dict.mem_keys_iff.mp h.mem_keys
  have haddresses : p.backboneAddresses = e.peers.values.map fun link => .v4 link.address := by
    have hmap := congrArg (List.map IPAddress.v4) (map_address_peerConfig hcfgs (hvpn ▸ he))
    rw [List.map_map, List.map_map] at hmap
    exact hmap
  rw [haddresses, List.mem_map]
  constructor
  · rintro ⟨link, hlink, rfl⟩
    obtain ⟨⟨b, link'⟩, hentry, rfl⟩ := List.mem_map.mp hlink
    exact ⟨e, b, link', he, Dict.get?_eq_some_iff.mpr hentry, rfl⟩
  · rintro ⟨e', b, link, he', hlink, rfl⟩
    rw [he, Option.some.injEq] at he'
    subst he'
    exact ⟨link, List.mem_map_of_mem (f := Prod.snd) (Dict.get?_eq_some_iff.mp hlink), rfl⟩

theorem IsDeployed.address_mem_iff (h : IsDeployed o strategy settings cells p id) {b e : ℕ} {peer : DeployedPeer}
    {link : Link} (hpeer : p.deployment.get? b = some peer) (hlink : peer.peers.get? e = some link) :
    .v4 link.address ∈ p.backboneAddresses ↔ b = id := by
  rw [h.mem_backboneAddresses]
  constructor
  · rintro ⟨peer', e', link', hpeer', hlink', heq⟩
    exact ((distinctAddresses_of_redeploy h.deployment).injective _ _ _ _ _ _ _ _ hpeer hlink hpeer' hlink'
      (IPAddress.v4.inj heq)).1
  · rintro rfl
    exact ⟨peer, e, link, hpeer, hlink, rfl⟩

theorem IsDeployed.mem_backbonePeers_iff (h : IsDeployed o strategy settings cells p id) {a : IPAddress} :
    a ∈ p.backbonePeers id ↔ IsNeighbour p.deployment id a ∨ ∃ b ≠ id, IsFirst p.deployment b a := by
  rw [backbonePeers, Finset.mem_sdiff, List.mem_toFinset, List.mem_toFinset, mem_candidates]
  constructor
  · rintro ⟨⟨b, peer, e, link, hpeer, hlink, hor, rfl⟩, hown⟩
    have hne : b ≠ id := fun heq => hown ((h.address_mem_iff hpeer hlink).mpr heq)
    rcases hor with hport | rfl
    · exact .inr ⟨b, hne, peer, e, link, hpeer, hlink, hport, rfl⟩
    · obtain ⟨-, peer', link', hpeer', hlink', -, haddress⟩ := exists_mirror h.deployment hpeer hlink
      exact .inl ⟨peer', b, link', hpeer', hlink', by rw [haddress]⟩
  · rintro (⟨peer, b, link, hpeer, hlink, rfl⟩ | ⟨b, hne, peer, e, link, hpeer, hlink, hport, rfl⟩)
    · obtain ⟨hne, peer', link', hpeer', hlink', haddress, -⟩ := exists_mirror h.deployment hpeer hlink
      refine ⟨⟨b, peer', id, link', hpeer', hlink', .inr rfl, by rw [haddress]⟩, ?_⟩
      rw [← haddress, h.address_mem_iff hpeer' hlink']
      exact hne.symm
    · refine ⟨⟨b, peer, e, link, hpeer, hlink, .inl hport, rfl⟩, ?_⟩
      rw [h.address_mem_iff hpeer hlink]
      exact hne

theorem exists_isFirst (h : redeploy o strategy settings cells = .ok d) {b e : ℕ} (hlists : d.ListsPeer b e) :
    ∃ a, IsFirst d b a := by
  obtain ⟨peer, hpeer, he⟩ := hlists
  have hports := ports_of_redeploy h hpeer
  have hpos : 0 < peer.peers.size := by
    rw [Dict.size]
    rw [Dict.keys] at he
    exact List.length_pos_of_mem (List.mem_map.mp he).choose_spec.1
  have hzero : 0 ∈ peer.peers.values.map Link.port := by
    rw [hports]
    exact List.mem_range.mpr hpos
  obtain ⟨link, hlink, hport⟩ := List.mem_map.mp hzero
  obtain ⟨⟨e', link'⟩, hentry, rfl⟩ := List.mem_map.mp hlink
  exact ⟨_, peer, e', link', hpeer, Dict.get?_eq_some_iff.mpr hentry, hport, rfl⟩

/-! ### The root VPN -/

theorem root_of_peerConfig {v : CentralizedVpnConfig} {cfg : Config} (h : v.peerConfig id = .ok cfg) :
    ∃ root, pyIndex cfg.peers 0 = .ok root ∧ v.rootIp = .ok root.address := by
  unfold CentralizedVpnConfig.peerConfig at h
  simp only [Except.bind_eq_ok_iff, Except.ok.injEq] at h
  obtain ⟨_, -, _, -, _, -, _, -, _, -, rootAddress, hroot, rfl⟩ := h
  exact ⟨_, rfl, hroot⟩

theorem IsDeployed.initialPeers_eq (h : IsDeployed o strategy settings cells p id) (order : AddressOrder)
    {v : CentralizedVpnConfig} (hv : p.rootVpn = some v) :
    ∃ a, v.rootIp = .ok a ∧ p.initialPeers order = .ok (order.list (p.backbonePeers id) ++ [a]) := by
  obtain ⟨cfg, hcfg⟩ := h.root v hv
  obtain ⟨root, hindex, hroot⟩ := root_of_peerConfig hcfg
  refine ⟨root.address, hroot, ?_⟩
  have hconfig : p.rootVpnConfig = .ok cfg := by
    rw [rootVpnConfig, h.owner, hv]
    exact hcfg
  simp only [initialPeers, h.owner, hconfig, hindex, Except.ok_bind]

theorem IsDeployed.initialPeers_of_none (h : IsDeployed o strategy settings cells p id) (order : AddressOrder)
    (hnone : p.rootVpn = none) : p.initialPeers order = .error (.unboundLocal "vpn_config") := by
  have hconfig : p.rootVpnConfig = .error (.unboundLocal "vpn_config") := by
    rw [rootVpnConfig, h.owner, hnone]
  simp only [initialPeers, h.owner, hconfig, Except.error_bind]

end deployed

end Participant

open Participant

/-- The initial peers of a cell's participant are right exactly when there is a root VPN and no address of the cell
is one of those to be listed: the registry's is none of the cell's, and no other cell's end of a link is the address
of the cell in the root VPN or in its particles VPN. -/
theorem initial_peers_iff (order : AddressOrder) {o : Orders} {strategy : DeploymentStrategyKind}
    {settings : VpnSettings} {cells : Dict ℕ Cell} {p : Participant} {id : ℕ}
    (particlesVpn : Option CentralizedVpnConfig) (h : IsDeployed o strategy settings cells p id) :
    (∃ peers, FindsPeers order p id particlesVpn peers) ↔
      p.rootVpn ≠ none ∧
      (∀ a, p.IsRootAddress a → a ∉ p.backboneAddresses ∧ ¬p.IsCentral id particlesVpn a) ∧
      ∀ a, (IsNeighbour p.deployment id a ∨ ∃ b ≠ id, IsFirst p.deployment b a) →
        ¬p.IsCentral id particlesVpn a := by
  constructor
  · rintro ⟨peers, hpeers⟩
    refine ⟨fun hnone => ?_, fun a ha => ?_, fun a ha => ?_⟩
    · have heq := hpeers.eq
      rw [h.initialPeers_of_none order hnone] at heq
      cases heq
    · exact hpeers.not_own a ((hpeers.mem_iff a).mpr (.inr (.inr ha)))
    · exact (hpeers.not_own a ((hpeers.mem_iff a).mpr (ha.elim .inl fun hb => .inr (.inl hb)))).2
  · rintro ⟨hroot, hrootAddress, hlinks⟩
    obtain ⟨v, hv⟩ := Option.ne_none_iff_exists'.mp hroot
    obtain ⟨rootAddress, hip, heq⟩ := h.initialPeers_eq order hv
    have hisRoot : ∀ a, p.IsRootAddress a ↔ a = rootAddress := by
      intro a
      simp only [IsRootAddress, hv, Option.some.injEq, exists_eq_left', hip, Except.ok.injEq, eq_comm]
    have hmem : ∀ a, a ∈ order.list (p.backbonePeers id) ++ [rootAddress] ↔
        IsNeighbour p.deployment id a ∨ (∃ b ≠ id, IsFirst p.deployment b a) ∨ p.IsRootAddress a := by
      intro a
      rw [List.mem_append, List.mem_singleton, order.mem_iff, h.mem_backbonePeers_iff, hisRoot, or_assoc]
    refine ⟨_, heq, hmem, fun b e hlists => exists_isFirst h.deployment hlists, fun a ha => ?_⟩
    rw [List.mem_append, List.mem_singleton, order.mem_iff] at ha
    rcases ha with ha | ha
    · have hown : a ∉ p.backboneAddresses := by
        rw [backbonePeers, Finset.mem_sdiff, List.mem_toFinset, List.mem_toFinset] at ha
        exact ha.2
      exact ⟨hown, hlinks a (h.mem_backbonePeers_iff.mp ha)⟩
    · exact hrootAddress a ((hisRoot a).mpr ha)

/-! ### An example -/

/-- Every deployed cell has a participant, once the keys of its links are asserted. -/
theorem exists_isDeployed {o : Orders} {strategy : DeploymentStrategyKind} {settings : VpnSettings}
    {cells : Dict ℕ Cell} {d : P2pLinksMap} (hd : redeploy o strategy settings cells = .ok d)
    (hfield : settings.interface.fields = 1) (source : KeySource) (id : ℕ) (hid : ∃ e, d.get? id = some e)
    (rootVpn : Option CentralizedVpnConfig) (hroot : ∀ v, rootVpn = some v → ∃ cfg, v.peerConfig id = .ok cfg) :
    ∃ p, IsDeployed o strategy settings cells p id ∧ p.deployment = d ∧ p.rootVpn = rootVpn := by
  obtain ⟨k, -, hcfgs⟩ := exists_configs hd hfield source ⟨∅, ∅, 0⟩
  obtain ⟨e, he⟩ := hid
  obtain ⟨cfgs, hpeer, -⟩ := hcfgs id e he
  exact ⟨⟨.cell id, d, cfgs, rootVpn, none⟩,
    ⟨rfl, hd, Dict.mem_keys_iff.mpr ⟨e, he⟩, ⟨source, _, k, k, rfl, hpeer⟩, hroot⟩, rfl, rfl⟩

noncomputable def AddressOrder.listed : AddressOrder := ⟨Finset.toList, fun _ _ => Finset.mem_toList⟩

/-- The three VPNs have subnets of their own. -/
def apartSettings : UvnSettings :=
  { exampleUvnSettings with
    rootVpn :=
      { exampleUvnSettings.rootVpn with
        subnet := .v4 ⟨⟨0x14000000, by decide⟩, 24, IPv4Network.le_24, by decide⟩ }
    particlesVpn :=
      { exampleUvnSettings.particlesVpn with
        subnet := .v4 ⟨⟨0x1e000000, by decide⟩, 24, IPv4Network.le_24, by decide⟩ } }

/-- The participant of cell 1 finds its initial peers. -/
theorem initial_peers_iff_example :
    ∃ p v w, IsDeployed .unshuffled .crossed (exampleSettings [some "uwg-b", none]) exampleCells p 1 ∧
      rootVpnConfig apartSettings exampleUvn.uvn exampleKeymat = some v ∧ p.rootVpn = some v ∧
      particlesVpn apartSettings exampleUvn.uvn ⟨1, 1, some "a.example.com", [], false⟩ exampleKeymat = some w ∧
      ∃ peers, FindsPeers .listed p 1 (some w) peers := by
  have hd := (rfl : redeploy .unshuffled .crossed (exampleSettings [some "uwg-b", none]) exampleCells = .ok _)
  obtain ⟨v, hv, hbuilt, hrootIp, hpeerIp⟩ : ∃ v, rootVpnConfig apartSettings exampleUvn.uvn exampleKeymat = some v ∧
      (∃ cfg, v.peerConfig 1 = .ok cfg) ∧ v.rootIp = .ok (.v4 ⟨20 * 2 ^ 24 + 1, by decide⟩) ∧
        v.peerIp 1 = .ok (.v4 ⟨20 * 2 ^ 24 + 2, by decide⟩) := ⟨_, rfl, ⟨_, rfl⟩, rfl, rfl⟩
  obtain ⟨w, hw, hcell⟩ : ∃ w, particlesVpn apartSettings exampleUvn.uvn
      ⟨1, 1, some "a.example.com", [], false⟩ exampleKeymat = some w ∧
        w.rootIp = .ok (.v4 ⟨30 * 2 ^ 24 + 1, by decide⟩) := ⟨_, rfl, rfl⟩
  obtain ⟨p, hp, hdeployed, hroot⟩ := exists_isDeployed hd (by decide) exampleSource 1 ⟨_, rfl⟩ (some v)
    fun u hu => Option.some.inj hu ▸ hbuilt
  -- the addresses of the links are below those of the other VPNs
  have hlinks : ∀ x ∈ p.deployment.entries, ∀ y ∈ x.2.peers.entries,
      y.2.address.toNat < 20 * 2 ^ 24 ∧ y.2.peerAddress.toNat < 20 * 2 ^ 24 := by
    rw [hdeployed]
    decide +kernel
  have hlink : ∀ {b e : ℕ} {peer : DeployedPeer} {link : Link}, p.deployment.get? b = some peer →
      peer.peers.get? e = some link → link.address.toNat < 20 * 2 ^ 24 ∧ link.peerAddress.toNat < 20 * 2 ^ 24 :=
    fun hpeer hlink => hlinks _ (Dict.get?_eq_some_iff.mp hpeer) _ (Dict.get?_eq_some_iff.mp hlink)
  have hcentral : ∀ a, p.IsCentral 1 (some w) a → ∃ x, a = .v4 x ∧ 20 * 2 ^ 24 + 2 ≤ x.toNat := by
    rintro a (⟨u, hu, ha⟩ | ⟨u, hu, ha⟩)
    · rw [hroot] at hu
      rw [← Option.some.inj hu, hpeerIp] at ha
      exact ⟨_, (Except.ok.inj ha).symm, le_rfl⟩
    · rw [← Option.some.inj hu, hcell] at ha
      exact ⟨_, (Except.ok.inj ha).symm, by decide⟩
  refine ⟨p, v, w, hp, hv, hroot, hw, (initial_peers_iff .listed (some w) hp).mpr ⟨?_, ?_, ?_⟩⟩
  · rw [hroot]
    exact Option.some_ne_none v
  · rintro a ⟨u, hu, ha⟩
    rw [hroot] at hu
    rw [← Option.some.inj hu, hrootIp] at ha
    obtain rfl := Except.ok.inj ha
    refine ⟨fun hown => ?_, fun hown => ?_⟩
    · obtain ⟨_, _, link, hpeer, hentry, heq⟩ := hp.mem_backboneAddresses.mp hown
      have hlow := (hlink hpeer hentry).1
      rw [← IPAddress.v4.inj heq] at hlow
      exact absurd hlow (by decide)
    · obtain ⟨x, hx, hhigh⟩ := hcentral _ hown
      rw [← IPAddress.v4.inj hx] at hhigh
      exact absurd hhigh (by decide)
  · rintro a (⟨_, _, link, hpeer, hentry, rfl⟩ | ⟨_, -, _, _, link, hpeer, hentry, -, rfl⟩) hown
    · obtain ⟨x, hx, hhigh⟩ := hcentral _ hown
      have hlow := (hlink hpeer hentry).2
      rw [IPAddress.v4.inj hx] at hlow
      omega
    · obtain ⟨x, hx, hhigh⟩ := hcentral _ hown
      have hlow := (hlink hpeer hentry).1
      rw [IPAddress.v4.inj hx] at hlow
      omega

/-- Without a root VPN, the list of initial peers cannot be read. -/
theorem initial_peers_fail :
    ∃ p, IsDeployed .unshuffled .crossed (exampleSettings [some "uwg-b", none]) exampleCells p 1 ∧ p.rootVpn = none ∧
      p.initialPeers .listed = .error (.unboundLocal "vpn_config") := by
  have hd := (rfl : redeploy .unshuffled .crossed (exampleSettings [some "uwg-b", none]) exampleCells = .ok _)
  obtain ⟨p, hp, -, hnone⟩ := exists_isDeployed hd (by decide) exampleSource 1 ⟨_, rfl⟩ none (fun _ h => nomatch h)
  exact ⟨p, hp, hnone, hp.initialPeers_of_none .listed hnone⟩

end Uno
