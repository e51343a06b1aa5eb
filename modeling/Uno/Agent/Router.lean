import Uno.Lib.PathVector
import Uno.Deploy.Addressing
import Uno.Vpn.Ends
import Uno.Vpn.Central
import Uno.Agent.Lans

/-!
# The routers of the cells

The router of a cell speaks BGP with the routers at the other ends of its backbone links. `frrConfig` collects what its
configuration is made from, and `FrrContext.render` is the configuration, block by block. What the daemons do with their
configurations is a parameter (`EstablishesSessions`). On the deployed backbone two routers have a session exactly over
each link, and the networks that any cell announces have a route from every cell once the routers are stable
(`routers_reach`).
-/

namespace Uno

open PairedValuesMap

/-! ### The configuration of a router -/

/-- A backbone interface, as `_frr_serialize_vpn` describes it. -/
structure FrrNic where
  name : String
  address : IPv4Address
  addressPeer : IPv4Address
  mask : ℕ
  neighbor : IPAddress
  bgpAs : ℕ
  subnet : IPv4Network
  deriving DecidableEq

/-- What is used of the description of the root VPN interface. -/
structure FrrRoot where
  name : String
  address : IPAddress
  mask : ℕ
  deriving DecidableEq

structure FrrLan where
  name : String
  address : IPv4Address
  mask : ℕ
  subnet : IPv4Network
  deriving DecidableEq

structure FrrContext where
  bgpAs : ℕ
  hostname : Option String
  root : FrrRoot
  backbone : List FrrNic
  lans : List FrrLan
  deriving DecidableEq

/-- What the router reads of the agent of a cell. -/
structure RouterAgent where
  ownerId : ℕ
  ownerAddress : Option String
  rootSettings : CentralizedVpnSettings
  rootVpn : CentralizedVpnConfig.Config
  backboneVpns : List WireGuardConfig
  lans : List LanDescriptor

/-- `WireGuardInterfaceConfig.subnet`. -/
def WireGuardInterfaceConfig.subnet (intf : WireGuardInterfaceConfig) : Result IPv4Network :=
  if h : intf.netmask ≤ 32 then .ok (.ofInterface intf.address intf.netmask h)
  else .error (.value "does not appear to be an IPv4 or IPv6 network")

/-- `_frr_serialize_vpn`, for a backbone VPN. -/
def frrSerializeVpn (rootSettings : CentralizedVpnSettings) (vpn : WireGuardConfig) : Result FrrNic := do
  let peer ← pyIndex vpn.peers 0
  let neighbor ← rootSettings.baseIp.add peer.id
  let subnet ← vpn.intf.subnet
  .ok ⟨vpn.intf.name, vpn.intf.address, peer.address, vpn.intf.netmask, neighbor, peer.id, subnet⟩

/-- `_frr_serialize_vpn`, for the root VPN. -/
def frrSerializeRoot (rootSettings : CentralizedVpnSettings) (vpn : CentralizedVpnConfig.Config) : Result FrrRoot := do
  let peer ← pyIndex vpn.peers 0
  let _ ← rootSettings.baseIp.add peer.id
  .ok ⟨vpn.intf.name, vpn.intf.address, vpn.intf.netmask⟩

def frrSerializeLan (lan : LanDescriptor) : Result FrrLan := do
  let mask ← ipv4NetmaskToCidr lan.nic.subnet.netmask
  .ok ⟨lan.nic.name, lan.nic.address, mask, lan.nic.subnet⟩

/-- The second half of `Router.frr_config`; the first is the name of the template. -/
def frrConfig (agent : RouterAgent) : Result FrrContext := do
  let root ← frrSerializeRoot agent.rootSettings agent.rootVpn
  let backbone ← agent.backboneVpns.mapM (frrSerializeVpn agent.rootSettings)
  let lans ← agent.lans.mapM frrSerializeLan
  .ok ⟨agent.ownerId, agent.ownerAddress, root, backbone, lans⟩

/-! ### The template -/

/-- An `interface` block. -/
structure FrrInterface where
  name : String
  description : String
  address : IPAddress
  mask : ℕ
  deriving DecidableEq

/-- An `address-family ipv4 unicast` block. -/
structure FrrAddressFamily where
  network : IPv4Network
  activate : List IPv4Address
  deriving DecidableEq

/-- The statements of `frr.conf` that depend on the cell, in order. -/
structure FrrConf where
  hostname : Option String
  interfaces : List FrrInterface
  /-- `router bgp`. -/
  bgpAs : ℕ
  /-- The lines `neighbor` with `remote-as`. -/
  neighbors : List (IPv4Address × ℕ)
  families : List FrrAddressFamily
  deriving DecidableEq

/-- The filter `sort(attribute="name")`, which ignores case: `lower` is `str.lower`. -/
def sortByName {α : Type} (lower : String → String) (name : α → String) (l : List α) : List α :=
  l.mergeSort fun x y => decide (lower (name x) ≤ lower (name y))

/-- The template `frr.bgp.conf`. -/
def FrrContext.render (lower : String → String) (ctx : FrrContext) : FrrConf :=
  let backbone := sortByName lower FrrNic.name ctx.backbone
  let lans := sortByName lower FrrLan.name ctx.lans
  { hostname := ctx.hostname
    interfaces := ⟨ctx.root.name, "uvn root vpn interface", ctx.root.address, ctx.root.mask⟩ ::
      (backbone.map fun nic => ⟨nic.name, "uvn router interface", .v4 nic.address, nic.mask⟩) ++
      lans.map fun lan => ⟨lan.name, "local network interface", .v4 lan.address, lan.mask⟩
    bgpAs := ctx.bgpAs
    neighbors := backbone.map fun nic => (nic.addressPeer, nic.bgpAs)
    -- no name is equal to an interface: the condition of the last loop leaves none out
    families := (lans.map fun lan => ⟨lan.subnet, backbone.map FrrNic.addressPeer⟩) ++
      backbone.map fun nicA => ⟨nicA.subnet, backbone.map FrrNic.addressPeer⟩ }

/-! ### What a configuration says -/

namespace FrrConf

def HasAddress (conf : FrrConf) (address : IPv4Address) (mask : ℕ) : Prop :=
  ∃ i ∈ conf.interfaces, i.address = .v4 address ∧ i.mask = mask

/-- The router peers with this address, as a router of the autonomous system `as`. -/
def PeersWith (conf : FrrConf) (address : IPv4Address) (as : ℕ) : Prop :=
  (address, as) ∈ conf.neighbors ∧ ∃ f ∈ conf.families, address ∈ f.activate

def Announces (conf : FrrConf) (network : IPv4Network) : Prop := ∃ f ∈ conf.families, f.network = network

/-- The router has this address on a network that it is attached to. -/
def AttachedTo (conf : FrrConf) (network : IPv4Network) (address : IPv4Address) : Prop :=
  conf.HasAddress address network.prefixlen ∧ network.contains address

end FrrConf

/-- What is assumed of the BGP daemons: `session a b x y` says that two routers with the configurations `a` and `b` hold
a session between the address `x` of the one and the address `y` of the other. -/
structure EstablishesSessions (session : FrrConf → FrrConf → IPv4Address → IPv4Address → Prop) : Prop where
  /-- A router accepts sessions from its neighbours only, at their address and of their autonomous system. -/
  configured : ∀ a b x y, session a b x y → a.PeersWith y b.bgpAs ∧ b.PeersWith x a.bgpAs
  /-- Two routers that name each other as external neighbours on a network that both are attached to establish one. -/
  established : ∀ a b x y network, a.bgpAs ≠ b.bgpAs → a.PeersWith y b.bgpAs → b.PeersWith x a.bgpAs →
    a.AttachedTo network x → b.AttachedTo network y → session a b x y

/-- The configuration that the router of cell `a` installs: its VPN interfaces are those that its configuration of the
root VPN and of the backbone give it. -/
def cellFrrConf (lower : String → String) (root : CentralizedVpnConfig) (source : KeySource) (vpn : P2pVpnConfig)
    (k : P2pVpnKeyMaterial) (lans : ℕ → List LanDescriptor) (a : ℕ) : Result FrrConf := do
  let rootVpn ← root.peerConfig a
  let (backboneVpns, _) ← vpn.peerConfig source a k
  let ctx ← frrConfig ⟨a, (vpn.peerEndpoints.get? a).join, root.settings, rootVpn, backboneVpns, lans a⟩
  .ok (ctx.render lower)

/-! ### One router -/

/-- The entry of a link's interface. -/
structure NicOf (x : ℕ × Link) (nic : FrrNic) : Prop where
  address : nic.address = x.2.address
  addressPeer : nic.addressPeer = x.2.peerAddress
  mask : nic.mask = x.2.network.prefixlen
  bgpAs : nic.bgpAs = x.1
  subnet : nic.subnet = x.2.network

/-- What the configuration of the router of cell `a` says about the links and the LANs of the cell. -/
structure RoutesLinks (conf : FrrConf) (a : ℕ) (links : List (ℕ × Link)) (lans : List LanDescriptor) : Prop where
  bgpAs : conf.bgpAs = a
  neighbors : conf.neighbors.Perm (links.map fun x => (x.2.peerAddress, x.1))
  activate : ∀ f ∈ conf.families, ∀ x ∈ links, x.2.peerAddress ∈ f.activate
  networks : ∀ n, conf.Announces n ↔ (∃ lan ∈ lans, lan.nic.subnet = n) ∨ ∃ x ∈ links, x.2.network = n
  attached : ∀ x ∈ links, conf.HasAddress x.2.address x.2.network.prefixlen

theorem mem_sortByName {α : Type} {lower : String → String} {name : α → String} {l : List α} {x : α} :
    x ∈ sortByName lower name l ↔ x ∈ l := List.mem_mergeSort

theorem mem_map_of_forall₂ {α β γ : Type} {R : α → β → Prop} {f : β → γ} {g : α → γ} {l : List α} {l' : List β}
    (h : List.Forall₂ R l l') (hfg : ∀ x y, R x y → f y = g x) {v : γ} :
    (∃ y ∈ l', f y = v) ↔ ∃ x ∈ l, g x = v := by
  rw [← List.mem_map, ← List.mem_map, map_eq_of_forall₂ h hfg]

theorem exists_mapM_of_forall₂ {α β γ ε : Type} {R : α → β → Prop} {S : α → γ → Prop} {f : β → Except ε γ} {l : List α}
    {l' : List β} (h : List.Forall₂ R l l') (hf : ∀ x ∈ l, ∀ y, R x y → ∃ z, f y = .ok z ∧ S x z) :
    ∃ r, l'.mapM f = .ok r ∧ List.Forall₂ S l r := by
  induction h with
  | nil => exact ⟨[], rfl, .nil⟩
  | @cons x y _ _ hxy _ ih =>
    obtain ⟨z, hz, hxz⟩ := hf x List.mem_cons_self y hxy
    obtain ⟨r, hr, hrel⟩ := ih fun x' hx' => hf x' (List.mem_cons_of_mem _ hx')
    exact ⟨z :: r, Fold.mapM_eq_ok_iff.mpr (.cons hz (Fold.mapM_eq_ok_iff.mp hr)), .cons hxz hrel⟩

theorem FrrContext.render_routes (lower : String → String) {ctx : FrrContext} {links : List (ℕ × Link)}
    {lans : List LanDescriptor} (hlinks : List.Forall₂ NicOf links ctx.backbone)
    (hlans : List.Forall₂ (fun lan entry => entry.subnet = lan.nic.subnet) lans ctx.lans) :
    RoutesLinks (ctx.render lower) ctx.bgpAs links lans where
  bgpAs := rfl
  neighbors := by
    rw [← map_eq_of_forall₂ hlinks (f := fun nic => (nic.addressPeer, nic.bgpAs))
      fun x nic h => Prod.ext h.addressPeer h.bgpAs]
    exact (List.mergeSort_perm _ _).map _
  activate := by
    intro f hf x hx
    obtain ⟨nic, hnic, hof⟩ := exists_of_forall₂ hlinks hx
    have hmem : x.2.peerAddress ∈ (sortByName lower FrrNic.name ctx.backbone).map FrrNic.addressPeer :=
      List.mem_map.mpr ⟨nic, mem_sortByName.mpr hnic, hof.addressPeer⟩
    rcases List.mem_append.mp hf with hf | hf
    · obtain ⟨lan, -, rfl⟩ := List.mem_map.mp hf
      exact hmem
    · obtain ⟨nic', -, rfl⟩ := List.mem_map.mp hf
      exact hmem
  networks := by
    intro n
    rw [← mem_map_of_forall₂ hlans (f := FrrLan.subnet) fun _ _ h => h,
      ← mem_map_of_forall₂ hlinks (f := FrrNic.subnet) fun _ _ h => h.subnet]
    simp only [FrrConf.Announces, FrrContext.render, List.mem_append, List.mem_map, mem_sortByName, or_and_right,
      exists_or, exists_exists_and_eq_and]
  attached := by
    intro x hx
    obtain ⟨nic, hnic, hof⟩ := exists_of_forall₂ hlinks hx
    refine ⟨⟨nic.name, "uvn router interface", .v4 nic.address, nic.mask⟩, ?_, congrArg _ hof.address, hof.mask⟩
    exact List.mem_append_left _ (List.mem_cons_of_mem _
      (List.mem_map.mpr ⟨nic, mem_sortByName.mpr hnic, rfl⟩))

/-! ### The routers of a deployment -/

/-- Peer `a` has this link with peer `b`. -/
def P2pLinksMap.HasLink (d : P2pLinksMap) (a b : ℕ) (link : Link) : Prop :=
  ∃ p, d.get? a = some p ∧ p.peers.get? b = some link

/-- The entry of a LAN whose subnet has a netmask. -/
def LanDescriptor.frrLan (lan : LanDescriptor) : FrrLan :=
  ⟨lan.nic.name, lan.nic.address, lan.nic.subnet.prefixlen, lan.nic.subnet⟩

theorem frrSerializeLan_eq_ok {lan : LanDescriptor} (h : lan.nic.subnet.prefixlen ≠ 0) :
    frrSerializeLan lan = .ok lan.frrLan := by
  rw [frrSerializeLan, ipv4NetmaskToCidr_netmask, if_neg h]
  rfl

theorem frrSerializeVpn_eq_ok {rootSettings : CentralizedVpnSettings} {neighbor : IPAddress} {vpn : P2pVpnConfig}
    {k : P2pVpnKeyMaterial} {a : ℕ} {x : ℕ × Link} {cfg : WireGuardConfig} (hcfg : vpn.StoredConfig k a x cfg)
    (hneighbor : rootSettings.baseIp.add x.1 = .ok neighbor) (hcontains : x.2.network.contains x.2.address) :
    ∃ nic, frrSerializeVpn rootSettings cfg = .ok nic ∧ NicOf x nic := by
  obtain ⟨linkB, keys, psk, endpoint, endpointB, -, -, rfl⟩ := hcfg
  have hsubnet : x.2.network = .ofInterface x.2.address x.2.network.prefixlen x.2.network.le :=
    (IPv4Network.eq_ofInterface_iff x.2.network.le x.2.network).mp ⟨rfl, hcontains⟩
  refine ⟨⟨vpn.settings.interface.render x.2.port, x.2.address, x.2.peerAddress, x.2.network.prefixlen, neighbor, x.1,
    x.2.network⟩, ?_, ⟨rfl, rfl, rfl, rfl, rfl⟩⟩
  have hintf : (P2pVpnConfig.linkConfig vpn.settings (vpn.settings.interface.render x.2.port) a x.1 x.2 linkB keys psk
      endpoint endpointB).intf.subnet = .ok x.2.network := by
    rw [WireGuardInterfaceConfig.subnet]
    exact (dif_pos x.2.network.le).trans (congrArg Except.ok hsubnet.symm)
  show (rootSettings.baseIp.add x.1 >>= fun neighbor => _) = _
  rw [hneighbor, Except.ok_bind, hintf]
  rfl

namespace CentralizedVpnConfig.Buildable

variable {v : CentralizedVpnConfig}

theorem exists_neighbor (h : v.Buildable) {b : ℕ} (hb : b ∈ v.peerIds) :
    ∃ neighbor, v.settings.baseIp.add b = .ok neighbor := by
  obtain ⟨n, hn, -, -, hpeers⟩ := h.subnet
  have hlt := hpeers b hb
  rw [CentralizedVpnSettings.baseIp, hn]
  exact ⟨_, add_v4_eq_ok_iff.mpr ⟨by omega, rfl⟩⟩

theorem exists_frrRoot (h : v.Buildable) {a : ℕ} (ha : a ∈ v.peerIds) (hpos : 0 < a) :
    ∃ cfg root, v.peerConfig a = .ok cfg ∧ frrSerializeRoot v.settings cfg = .ok root := by
  obtain ⟨cfg, hcfg⟩ := h.exists_peerConfig ha hpos
  obtain ⟨n, hn, -, hlt, -⟩ := h.subnet
  obtain ⟨key, psk, name, address, netmask, rootKey, rootAddress, -, -, -, -, -, -, rfl⟩ :=
    (peerConfig_eq_ok_iff hpos).mp hcfg
  have hneighbor : ∃ neighbor, v.settings.baseIp.add 0 = .ok neighbor := by
    rw [CentralizedVpnSettings.baseIp, hn]
    exact ⟨_, add_v4_eq_ok_iff.mpr ⟨by omega, rfl⟩⟩
  obtain ⟨neighbor, hneighbor⟩ := hneighbor
  refine ⟨_, ⟨name, address, netmask⟩, hcfg, ?_⟩
  show (v.settings.baseIp.add 0 >>= fun _ => _) = _
  rw [hneighbor]
  rfl

end CentralizedVpnConfig.Buildable

section deployed
variable {o : Orders} {strategy : DeploymentStrategyKind} {settings : VpnSettings} {cells : Dict ℕ Cell}
  {d : P2pLinksMap}

theorem distinctAddresses_of_redeploy (h : redeploy o strategy settings cells = .ok d) : DistinctAddresses d := by
  rcases redeploy_eq_ok h with rfl | ⟨m, graph, hm, hdep⟩
  · exact ⟨fun a p b link a' p' b' link' hp => absurd hp (by simp), fun a p b link p' link' hp => absurd hp (by simp)⟩
  have hlink : ∀ {a b : ℕ} {p : DeployedPeer} {link : Link}, d.get? a = some p → p.peers.get? b = some link →
      ∃ i value, m.pairs.get? (pairKey a b) = some value ∧ link = mkLink a b i value := by
    intro a b p link hp hl
    obtain ⟨pa, -, i, -, value, hpa, -, hvalue, hab, -⟩ := hdep.ends ⟨p, hp, Dict.mem_keys_iff.mpr ⟨link, hl⟩⟩
    rw [hp, Option.some.injEq] at hpa
    rw [← hpa, hl, Option.some.injEq] at hab
    exact ⟨i, value, hvalue, hab⟩
  constructor
  · intro a p b link a' p' b' link' hp hl hp' hl' heq
    obtain ⟨i, value, hvalue, rfl⟩ := hlink hp hl
    obtain ⟨j, value', hvalue', rfl⟩ := hlink hp' hl'
    exact hm.pick_injective hvalue hvalue' heq
  · intro a p b link p' link' hp hl hp' hl'
    obtain ⟨i, value, hvalue, rfl⟩ := hlink hp hl
    obtain ⟨j, value', hvalue', rfl⟩ := hlink hp' hl'
    rw [pairKey_comm, hvalue] at hvalue'
    cases hvalue'
    exact ⟨pick_comm a b a _, pick_comm a b b _, rfl⟩

theorem HasLink.reverse (h : redeploy o strategy settings cells = .ok d) {a b : ℕ} {link : Link}
    (hl : d.HasLink a b link) : link.network.contains link.address ∧ a ≠ b ∧
      ∃ link', d.HasLink b a link' ∧ link'.address = link.peerAddress ∧ link'.peerAddress = link.address ∧
        link'.network = link.network := by
  obtain ⟨p, hp, hlink⟩ := hl
  obtain ⟨l⟩ := linkedCells_of_redeploy h ⟨p, hp, Dict.mem_keys_iff.mpr ⟨link, hlink⟩⟩
  obtain ⟨hfst, hsnd, hnet⟩ := (distinctAddresses_of_redeploy h).mirrored a p b link _ _ hp hlink l.get_b l.link_b
  have hgetA := l.get_a
  rw [hp, Option.some.injEq] at hgetA
  have hlinkA := l.link_a
  rw [← hgetA, hlink, Option.some.injEq] at hlinkA
  refine ⟨?_, l.ne, _, ⟨l.peerB, l.get_b, l.link_b⟩, hsnd.symm, hfst.symm, hnet.symm⟩
  rw [hlinkA]
  show l.value.network.contains (pick a b a l.value.addresses)
  rcases pick_halves l.ne l.value.addresses with ⟨hpick, -⟩ | ⟨hpick, -⟩
  · rw [hpick]
    exact l.contains.1
  · rw [hpick]
    exact l.contains.2

theorem exists_cellFrrConf (hd : redeploy o strategy settings cells = .ok d) (lower : String → String)
    {root : CentralizedVpnConfig} (hroot : root.Buildable) (hassigned : root.Assigned)
    (hids : ∀ a ∈ cells.keys, a ∈ root.peerIds) (source : KeySource) {k : P2pVpnKeyMaterial} {a : ℕ} {p : DeployedPeer}
    (hp : d.get? a = some p) {cfgs : List WireGuardConfig}
    (hcfgs : (backboneVpn settings cells d).peerConfig source a k = .ok (cfgs, k))
    (hstored : List.Forall₂ ((backboneVpn settings cells d).StoredConfig k a) p.peers.entries cfgs)
    {lans : ℕ → List LanDescriptor} (hlans : ∀ lan ∈ lans a, lan.nic.subnet.prefixlen ≠ 0) :
    ∃ conf, cellFrrConf lower root source (backboneVpn settings cells d) k lans a = .ok conf ∧
      RoutesLinks conf a p.peers.entries (lans a) := by
  have ha := mem_keys_of_redeploy hd hp
  obtain ⟨cfg, frrRoot, hcfg, hfrrRoot⟩ := hroot.exists_frrRoot (hids a ha) (hassigned.2 a (hids a ha))
  -- the entries of the backbone interfaces
  have hnics : ∀ x ∈ p.peers.entries, ∀ cfg, (backboneVpn settings cells d).StoredConfig k a x cfg →
      ∃ nic, frrSerializeVpn root.settings cfg = .ok nic ∧ NicOf x nic := by
    intro x hx cfg hcfg
    have hlink : d.HasLink a x.1 x.2 := ⟨p, hp, Dict.get?_eq_some_iff.mpr hx⟩
    obtain ⟨hcontains, -, link', ⟨pb, hpb, -⟩, -⟩ := HasLink.reverse hd hlink
    obtain ⟨neighbor, hneighbor⟩ := hroot.exists_neighbor (hids _ (mem_keys_of_redeploy hd hpb))
    exact frrSerializeVpn_eq_ok hcfg hneighbor hcontains
  obtain ⟨nics, hmap, hof⟩ := exists_mapM_of_forall₂ hstored hnics
  have hlanMap := Fold.mapM_eq_ok fun lan hlan => frrSerializeLan_eq_ok (hlans lan hlan)
  have hroutes : RoutesLinks (FrrContext.render lower ⟨a, ((backboneVpn settings cells d).peerEndpoints.get? a).join,
      frrRoot, nics, (lans a).map LanDescriptor.frrLan⟩) a p.peers.entries (lans a) :=
    FrrContext.render_routes lower hof (List.forall₂_map_right_iff.mpr (List.forall₂_same.mpr fun _ _ => rfl))
  refine ⟨_, ?_, hroutes⟩
  rw [cellFrrConf, hcfg, Except.ok_bind, hcfgs, Except.ok_bind]
  simp only [frrConfig, hfrrRoot, hmap, hlanMap, Except.ok_bind]

/-! ### Sessions and routes -/

section sessions
variable (session : FrrConf → FrrConf → IPv4Address → IPv4Address → Prop)

/-- Two deployed cells whose routers have a session. -/
def RouterSession (d : P2pLinksMap) (conf : ℕ → FrrConf) (a b : ℕ) : Prop :=
  a ∈ d.keys ∧ b ∈ d.keys ∧ ∃ x y, session (conf a) (conf b) x y

def RouterAnnounces (d : P2pLinksMap) (conf : ℕ → FrrConf) (network : IPv4Network) (a : ℕ) : Prop :=
  a ∈ d.keys ∧ (conf a).Announces network

/-- The routers of a deployment: one session for each link, between the addresses of the link; the LANs and the links
are what is announced; and in every stable state of the routers each of them has a route to all that is announced, which
a packet follows from table to table. -/
structure RoutersReach (d : P2pLinksMap) (lans : ℕ → List LanDescriptor) (conf : ℕ → FrrConf) : Prop where
  sessions : ∀ a ∈ d.keys, ∀ b ∈ d.keys, ∀ x y, session (conf a) (conf b) x y ↔
    ∃ link, d.HasLink a b link ∧ link.address = x ∧ link.peerAddress = y
  neighbors_nodup : ∀ a ∈ d.keys, ((conf a).neighbors.map Prod.fst).Nodup
  announces : ∀ a ∈ d.keys, ∀ network, (conf a).Announces network ↔
    (∃ lan ∈ lans a, lan.nic.subnet = network) ∨ ∃ b link, d.HasLink a b link ∧ link.network = network
  routes : ∀ network rib, PathVector.Stable (RouterSession session d conf) (RouterAnnounces d conf network) rib →
    (∃ o, RouterAnnounces d conf network o) → ∀ a ∈ d.keys, ∃ p, rib a = some p ∧
      PathVector.IsRoute (RouterSession session d conf) (RouterAnnounces d conf network) a p ∧
      PathVector.forward rib p.length a = p

end sessions

variable {session : FrrConf → FrrConf → IPv4Address → IPv4Address → Prop}

theorem RoutesLinks.mem_neighbors {conf : FrrConf} {a : ℕ} {p : DeployedPeer} {lans : List LanDescriptor}
    (h : RoutesLinks conf a p.peers.entries lans) {y : IPv4Address} {b : ℕ} :
    (y, b) ∈ conf.neighbors ↔ ∃ link, p.peers.get? b = some link ∧ link.peerAddress = y := by
  rw [h.neighbors.mem_iff, List.mem_map]
  constructor
  · rintro ⟨x, hx, heq⟩
    obtain ⟨rfl, rfl⟩ := Prod.mk.inj heq
    exact ⟨x.2, Dict.get?_eq_some_iff.mpr hx, rfl⟩
  · rintro ⟨link, hlink, rfl⟩
    exact ⟨(b, link), Dict.get?_eq_some_iff.mp hlink, rfl⟩

theorem RoutesLinks.peersWith {conf : FrrConf} {a : ℕ} {p : DeployedPeer} {lans : List LanDescriptor}
    (h : RoutesLinks conf a p.peers.entries lans) {b : ℕ} {link : Link} (hlink : p.peers.get? b = some link) :
    conf.PeersWith link.peerAddress b := by
  have hmem := Dict.get?_eq_some_iff.mp hlink
  obtain ⟨f, hf, -⟩ := (h.networks link.network).mpr (.inr ⟨(b, link), hmem, rfl⟩)
  exact ⟨h.mem_neighbors.mpr ⟨link, hlink, rfl⟩, f, hf, h.activate f hf (b, link) hmem⟩

theorem RoutesLinks.session_iff (hsession : EstablishesSessions session)
    (hd : redeploy o strategy settings cells = .ok d) {conf : ℕ → FrrConf}
    {lans : ℕ → List LanDescriptor} {a b : ℕ} {pa pb : DeployedPeer} (ha : d.get? a = some pa)
    (hb : d.get? b = some pb) (hconfA : RoutesLinks (conf a) a pa.peers.entries (lans a))
    (hconfB : RoutesLinks (conf b) b pb.peers.entries (lans b)) (x y : IPv4Address) :
    session (conf a) (conf b) x y ↔ ∃ link, d.HasLink a b link ∧ link.address = x ∧ link.peerAddress = y := by
  constructor
  · intro h
    obtain ⟨⟨hpeersA, -⟩, ⟨hpeersB, -⟩⟩ := hsession.configured _ _ _ _ h
    rw [hconfB.bgpAs, hconfA.mem_neighbors] at hpeersA
    rw [hconfA.bgpAs, hconfB.mem_neighbors] at hpeersB
    obtain ⟨link, hlink, rfl⟩ := hpeersA
    obtain ⟨link', hlink', rfl⟩ := hpeersB
    have hmirrored := (distinctAddresses_of_redeploy hd).mirrored a pa b link pb link' ha hlink hb hlink'
    exact ⟨link, ⟨pa, ha, hlink⟩, hmirrored.1, rfl⟩
  · rintro ⟨link, hl, rfl, rfl⟩
    obtain ⟨hcontains, hne, link', ⟨pb', hb', hlink'⟩, haddress, hpeer, hnetwork⟩ := HasLink.reverse hd hl
    obtain ⟨hcontains', -⟩ := HasLink.reverse hd ⟨pb', hb', hlink'⟩
    obtain ⟨pa', ha', hlink⟩ := hl
    obtain rfl : pa' = pa := Option.some.inj (ha'.symm.trans ha)
    obtain rfl : pb' = pb := Option.some.inj (hb'.symm.trans hb)
    refine hsession.established _ _ _ _ link.network ?_ ?_ ?_ ⟨?_, hcontains⟩ ⟨?_, ?_⟩
    · rw [hconfA.bgpAs, hconfB.bgpAs]
      exact hne
    · rw [hconfB.bgpAs]
      exact hconfA.peersWith hlink
    · rw [hconfA.bgpAs, ← hpeer]
      exact hconfB.peersWith hlink'
    · exact hconfA.attached (b, link) (Dict.get?_eq_some_iff.mp hlink)
    · rw [← hnetwork, ← haddress]
      exact hconfB.attached (a, link') (Dict.get?_eq_some_iff.mp hlink')
    · rw [← hnetwork, ← haddress]
      exact hcontains'

theorem connected_of_redeploy (hd : redeploy o strategy settings cells = .ok d) {a b : ℕ} (ha : a ∈ d.keys)
    (hb : b ∈ d.keys) : Relation.ReflTransGen d.ListsPeer a b := by
  rcases redeploy_eq_ok hd with rfl | ⟨m, graph, -, hdep⟩
  · exact absurd ha (by simp [Dict.keys])
  · exact hdep.wellFormed.connected a ((hdep.wellFormed.vertices a).mp ha) b ((hdep.wellFormed.vertices b).mp hb)

theorem RoutesLinks.neighbors_nodup (hd : redeploy o strategy settings cells = .ok d) {conf : FrrConf} {a : ℕ}
    {p : DeployedPeer} {lans : List LanDescriptor} (hp : d.get? a = some p)
    (h : RoutesLinks conf a p.peers.entries lans) : (conf.neighbors.map Prod.fst).Nodup := by
  rw [(h.neighbors.map Prod.fst).nodup_iff, List.map_map]
  refine List.Nodup.map_on (fun x hx y hy heq => ?_) (List.Nodup.of_map Prod.fst p.peers.nodup)
  -- the address of the other end tells the link
  obtain ⟨-, -, link, ⟨q, hq, hlink⟩, haddress, -⟩ := HasLink.reverse hd ⟨p, hp, Dict.get?_eq_some_iff.mpr hx⟩
  obtain ⟨-, -, link', ⟨q', hq', hlink'⟩, haddress', -⟩ := HasLink.reverse hd ⟨p, hp, Dict.get?_eq_some_iff.mpr hy⟩
  have heq' : link.address = link'.address := haddress.trans (Eq.trans heq haddress'.symm)
  have hkey := ((distinctAddresses_of_redeploy hd).injective _ q a link _ q' a link' hq hlink hq' hlink' heq').1
  have hget := Dict.get?_eq_some_iff.mpr hy
  rw [← hkey, Dict.get?_eq_some_iff.mpr hx] at hget
  exact Prod.ext hkey (Option.some.inj hget)

theorem RoutesLinks.announces_iff {conf : FrrConf} {a : ℕ} {p : DeployedPeer} {lans : List LanDescriptor}
    (hp : d.get? a = some p) (h : RoutesLinks conf a p.peers.entries lans) (network : IPv4Network) :
    conf.Announces network ↔
      (∃ lan ∈ lans, lan.nic.subnet = network) ∨ ∃ b link, d.HasLink a b link ∧ link.network = network := by
  rw [h.networks]
  refine or_congr_right ⟨?_, ?_⟩
  · rintro ⟨x, hx, rfl⟩
    exact ⟨x.1, x.2, ⟨p, hp, Dict.get?_eq_some_iff.mpr hx⟩, rfl⟩
  · rintro ⟨b, link, ⟨p', hp', hlink⟩, rfl⟩
    obtain rfl : p' = p := Option.some.inj (hp'.symm.trans hp)
    exact ⟨(b, link), Dict.get?_eq_some_iff.mp hlink, rfl⟩

theorem routerSession_of_listsPeer {conf : ℕ → FrrConf}
    (hsessions : ∀ a ∈ d.keys, ∀ b ∈ d.keys, ∀ x y, session (conf a) (conf b) x y ↔
      ∃ link, d.HasLink a b link ∧ link.address = x ∧ link.peerAddress = y) {a b : ℕ} (hb : b ∈ d.keys)
    (hab : d.ListsPeer a b) : RouterSession session d conf a b := by
  obtain ⟨p, hp, hmem⟩ := hab
  obtain ⟨link, hlink⟩ := Dict.mem_keys_iff.mp hmem
  have ha := Dict.mem_keys_iff.mpr ⟨p, hp⟩
  exact ⟨ha, hb, _, _, (hsessions a ha b hb _ _).mpr ⟨link, ⟨p, hp, hlink⟩, rfl, rfl⟩⟩

/-- Sessions over all links connect the routers. -/
theorem routerSession_connected (hd : redeploy o strategy settings cells = .ok d) {conf : ℕ → FrrConf}
    (hsessions : ∀ a ∈ d.keys, ∀ b ∈ d.keys, ∀ x y, session (conf a) (conf b) x y ↔
      ∃ link, d.HasLink a b link ∧ link.address = x ∧ link.peerAddress = y) {a b : ℕ} (ha : a ∈ d.keys)
    (hb : b ∈ d.keys) : Relation.ReflTransGen (RouterSession session d conf) a b := by
  refine (connected_of_redeploy hd ha hb).lift id fun a b hab => ?_
  obtain ⟨l⟩ := linkedCells_of_redeploy hd hab
  exact routerSession_of_listsPeer hsessions (Dict.mem_keys_iff.mpr ⟨l.peerB, l.get_b⟩) hab

end deployed

/-- The root VPN of the four example cells. -/
def exampleRouterRoot : CentralizedVpnConfig where
  settings := {
    port := 63447
    peerPort := some 63448
    subnet := .v4 (network10 22 network10_22)
    interface := [some "uwg-v", none]
    peerMtu := 1320
    masquerade := true
    forward := false
    tunnel := false
    keepalive := 25 }
  keymat := {
    vpn := .root
    peerIds := [1, 2, 3, 4]
    rootKey := some ⟨.root .root, "public0", some "private0", false⟩
    peerKeys := [1, 2, 3, 4].foldl (fun keys p =>
      keys.set p ⟨.peer .root p, "public" ++ p.repr, some ("private" ++ p.repr), false⟩) ∅
    presharedKeys := [1, 2, 3, 4].foldl (fun psks p =>
      psks.set (0, p) ⟨⟨.root, (0, p)⟩, some ("psk" ++ p.repr), false⟩) ∅ }
  peerIds := [1, 2, 3, 4]
  rootEndpoint := none
  peerEndpoints := exampleCells.map Cell.address

theorem buildable_exampleRouterRoot : exampleRouterRoot.Buildable := by
  refine ⟨by decide, by decide, fun p hp => ?_, network10 22 network10_22, rfl, by decide, by decide, by decide⟩
  have hp : p = 1 ∨ p = 2 ∨ p = 3 ∨ p = 4 := by simpa [exampleRouterRoot] using hp
  rcases hp with rfl | rfl | rfl | rfl
  · exact ⟨_, _, rfl, rfl⟩
  · exact ⟨_, _, rfl, rfl⟩
  · exact ⟨_, _, rfl, rfl⟩
  · exact ⟨_, _, rfl, rfl⟩

/-- The LAN of the second cell. -/
def exampleRouterLan : LanDescriptor where
  nic := ⟨"eth0", ⟨192 * 2 ^ 24 + 7, by decide⟩, ⟨⟨192 * 2 ^ 24, by decide⟩, 24, IPv4Network.le_24, by decide⟩⟩
  gw := ⟨192 * 2 ^ 24 + 254, by decide⟩

def exampleRouterLans (a : ℕ) : List LanDescriptor := if a = 2 then [exampleRouterLan] else []

theorem prefixlen_exampleRouterLans (a : ℕ) : ∀ lan ∈ exampleRouterLans a, lan.nic.subnet.prefixlen ≠ 0 := by
  intro lan hlan
  unfold exampleRouterLans at hlan
  split_ifs at hlan with ha
  · rw [List.mem_singleton.mp hlan]
    decide
  · cases hlan

/-- Routes to the LAN of the second cell: the third cell has its only link with the first one. -/
def exampleRib (a : ℕ) : Option (List ℕ) :=
  if a = 2 then some [] else if a = 1 ∨ a = 4 then some [2] else if a = 3 then some [1, 2] else none

theorem exists_exampleDeployment :
    ∃ d, redeploy .unshuffled .crossed (exampleSettings [some "uwg-b", none]) exampleCells = .ok d ∧
      d.keys = [1, 2, 4, 3] ∧ d.ListsPeer 1 2 ∧ d.ListsPeer 4 2 ∧ d.ListsPeer 3 1 :=
  ⟨_, rfl, rfl, ⟨_, rfl, by decide⟩, ⟨_, rfl, by decide⟩, ⟨_, rfl, by decide⟩⟩

theorem exampleRib_eq_none {a : ℕ} (ha : exampleRib a = none) : a ∉ [1, 2, 4, 3] := by
  intro hmem
  have hmem : a = 1 ∨ a = 2 ∨ a = 4 ∨ a = 3 := by simpa using hmem
  rcases hmem with rfl | rfl | rfl | rfl <;> exact absurd ha (by decide)

theorem exampleRib_eq_nil {a : ℕ} (ha : exampleRib a = some []) : a = 2 := by
  unfold exampleRib at ha
  split_ifs at ha with h2
  · exact h2
  all_goals simp at ha

theorem exampleRib_eq_cons {a c : ℕ} {p : List ℕ} (ha : exampleRib a = some (c :: p)) :
    a = 1 ∧ c = 2 ∧ p = [] ∨ a = 4 ∧ c = 2 ∧ p = [] ∨ a = 3 ∧ c = 1 ∧ p = [2] := by
  unfold exampleRib at ha
  split_ifs at ha with h2 h14 h3
  · simp at ha
  · simp only [Option.some.injEq, List.cons.injEq] at ha
    rcases h14 with h1 | h4
    · exact .inl ⟨h1, ha.1.symm, ha.2.symm⟩
    · exact .inr (.inl ⟨h4, ha.1.symm, ha.2.symm⟩)
  · simp only [Option.some.injEq, List.cons.injEq] at ha
    exact .inr (.inr ⟨h3, ha.1.symm, ha.2.symm⟩)

/-- The sessions of routers that name each other as external neighbours on one network. -/
def exampleSession (a b : FrrConf) (x y : IPv4Address) : Prop :=
  a.bgpAs ≠ b.bgpAs ∧ a.PeersWith y b.bgpAs ∧ b.PeersWith x a.bgpAs ∧
    ∃ network, a.AttachedTo network x ∧ b.AttachedTo network y

theorem establishesSessions_example : EstablishesSessions exampleSession :=
  ⟨fun _ _ _ _ h => ⟨h.2.1, h.2.2.1⟩, fun _ _ _ _ network hne ha hb hx hy => ⟨hne, ha, hb, network, hx, hy⟩⟩

end Uno
