import Uno.Vpn.Keys
import Uno.Vpn.Backbone
import Uno.Registry.Uvn

/-!
# Configurations of a centralized VPN

`CentralizedVpnConfig` derives one WireGuard interface for the root of a VPN (`rootConfig`) and one
for each peer (`peerConfig`). The root VPN connects the registry with all cells (`rootVpnConfig`), a
particles VPN connects a cell with the active particles (`particlesVpn`).

`rootConfig` returns exactly when its inputs are there (`rootConfig_eq_ok_iff`), and then every
`peerConfig` returns (`Buildable.exists_peerConfig`).
-/

namespace Uno

/-! ### Subnets -/

structure IPv6Address where
  toNat : ℕ
  lt : toNat < 2 ^ 128
  deriving DecidableEq

structure IPv6Network where
  networkAddress : IPv6Address
  prefixlen : ℕ
  le : prefixlen ≤ 128
  aligned : 2 ^ (128 - prefixlen) ∣ networkAddress.toNat

/-- What `ip_network` returns. -/
inductive IPNetwork where
  | v4 (network : IPv4Network)
  | v6 (network : IPv6Network)

inductive IPAddress where
  | v4 (address : IPv4Address)
  | v6 (address : IPv6Address)
  deriving DecidableEq

namespace IPAddress

/-- `address + offset`. -/
def add : IPAddress → ℕ → Result IPAddress
  | .v4 a, offset => do .ok (.v4 (← a.add offset))
  | .v6 a, offset =>
    if h : a.toNat + offset < 2 ^ 128 then .ok (.v6 ⟨a.toNat + offset, h⟩)
    else .error (.value "is not permitted as an IPv6 address")

end IPAddress

/-! ### Settings -/

structure CentralizedVpnSettings where
  port : ℕ
  peerPort : Option ℕ
  subnet : IPNetwork
  interface : InterfaceTemplate
  peerMtu : ℕ
  masquerade : Bool
  forward : Bool
  tunnel : Bool
  keepalive : ℕ

namespace CentralizedVpnSettings

def baseIp (s : CentralizedVpnSettings) : IPAddress :=
  match s.subnet with
  | .v4 n => .v4 n.networkAddress
  | .v6 n => .v6 n.networkAddress

/-- The mask of an IPv6 network is no IPv4 address. -/
def netmask (s : CentralizedVpnSettings) : Result ℕ :=
  match s.subnet with
  | .v4 n => ipv4NetmaskToCidr n.netmask
  | .v6 _ => .error (.value "is not permitted as an IPv4 address")

end CentralizedVpnSettings

/-! ### Configurations -/

structure CentralizedVpnConfig where
  settings : CentralizedVpnSettings
  keymat : CentralizedVpnKeyMaterial
  peerIds : List ℕ
  rootEndpoint : Option String
  peerEndpoints : Dict ℕ (Option String)

namespace CentralizedVpnConfig

/-- `WireGuardInterfaceConfig`; `port` is absent on an interface that does not listen. -/
structure Interface where
  name : String
  privkey : Option String
  address : IPAddress
  netmask : ℕ
  port : Option ℕ
  endpoint : Option Endpoint
  mtu : ℕ
  deriving DecidableEq

/-- `WireGuardInterfacePeerConfig`; `allowed` lists addresses. -/
structure Peer where
  id : ℕ
  pubkey : String
  psk : Option String
  address : IPAddress
  allowed : List IPAddress
  endpoint : Option Endpoint
  keepalive : Option ℕ
  deriving DecidableEq

/-- `WireGuardConfig`. -/
structure Config where
  intf : Interface
  peers : List Peer
  masquerade : Bool
  forward : Bool
  tunnel : Bool
  tunnelRoot : Bool
  deriving DecidableEq

variable (v : CentralizedVpnConfig)

def rootIp : Result IPAddress := v.settings.baseIp.add 1

def peerIp (peer : ℕ) : Result IPAddress := do (← v.rootIp).add peer

def peerPort : ℕ :=
  match v.settings.peerPort with
  | some port => if port ≠ 0 then port else v.settings.port
  | none => v.settings.port

/-- `peer_endpoints.get(peer)`. -/
def peerEndpoint (peer : ℕ) : Option String := (v.peerEndpoints.get? peer).join

/-- `root_key.private`. -/
def rootKey : Result AsymmKey :=
  match v.keymat.rootKey with
  | some key => .ok key
  | none => .error (.attribute "'NoneType' object has no attribute 'private'")

/-- The entry of the root for a peer. -/
def rootPeer (peer : ℕ) : Result Peer := do
  let (key, psk) ← v.keymat.getPeerMaterial peer true >>= unpackMaterial
  let address ← v.peerIp peer
  .ok {
    id := peer
    pubkey := key.publicKey
    psk := psk.value
    address := address
    allowed := [address]
    endpoint := (v.peerEndpoint peer).map fun host => ⟨host, v.peerPort⟩
    keepalive := if truthy (v.peerEndpoint peer) then some v.settings.keepalive else none }

def rootConfig : Result Config := do
  let name ← v.settings.interface.format 1
  let key ← v.rootKey
  let address ← v.rootIp
  let netmask ← v.settings.netmask
  let peers ← v.peerIds.mapM v.rootPeer
  .ok {
    intf := {
      name := name
      privkey := key.privateKey
      address := address
      netmask := netmask
      port := v.rootEndpoint.map fun _ => v.settings.port
      endpoint := v.rootEndpoint.map fun host => ⟨host, v.settings.port⟩
      mtu := v.settings.peerMtu }
    peers := peers
    masquerade := v.settings.masquerade
    forward := v.settings.forward
    tunnel := v.settings.tunnel
    tunnelRoot := true }

/-- The root pushes to a peer with an endpoint; the others connect to the root. -/
def peerConfig (peer : ℕ) : Result Config := do
  let (key, psk) ← v.keymat.getPeerMaterial peer true >>= unpackMaterial
  let endpoint := v.peerEndpoint peer
  let name ← v.settings.interface.format 0
  let address ← v.peerIp peer
  let netmask ← v.settings.netmask
  let rootKey ← v.rootKey
  let rootAddress ← v.rootIp
  .ok {
    intf := {
      name := name
      privkey := key.privateKey
      address := address
      netmask := netmask
      port := if truthy endpoint then some v.peerPort else none
      endpoint := if truthy endpoint then endpoint.map fun host => ⟨host, v.peerPort⟩ else none
      mtu := v.settings.peerMtu }
    peers := [{
      id := 0
      pubkey := rootKey.publicKey
      psk := psk.value
      address := rootAddress
      allowed := [rootAddress]
      endpoint :=
        if truthy endpoint then none else v.rootEndpoint.map fun host => ⟨host, v.settings.port⟩
      keepalive := if truthy endpoint then none else some v.settings.keepalive }]
    masquerade := v.settings.masquerade
    forward := v.settings.forward
    tunnel := v.settings.tunnel
    tunnelRoot := false }

/-- What the constructor of a writable configuration computes, once the keys are asserted. -/
def build : Result (Config × List Config) := do
  let root ← v.rootConfig
  let peers ← v.peerIds.mapM v.peerConfig
  .ok (root, peers)

/-! ### When a configuration is built -/

/-- What `rootConfig` needs: a name, keys, and addresses in the address space. -/
structure Buildable : Prop where
  fields : v.settings.interface.fields ≤ 1
  rootKey : v.keymat.rootKey ≠ none
  keys : ∀ p ∈ v.peerIds, ∃ key psk, v.keymat.Holds p key psk
  subnet : ∃ n, v.settings.subnet = .v4 n ∧ n.prefixlen ≠ 0 ∧ n.networkAddress.toNat + 1 < 2 ^ 32 ∧
    ∀ p ∈ v.peerIds, n.networkAddress.toNat + 1 + p < 2 ^ 32

/-- The ids of the peers come from a counter that starts at one. -/
def Assigned : Prop := v.peerIds.Nodup ∧ ∀ p ∈ v.peerIds, 0 < p

variable {v}

theorem rootKey_eq_ok_iff {key : AsymmKey} : v.rootKey = .ok key ↔ v.keymat.rootKey = some key := by
  unfold rootKey
  cases v.keymat.rootKey with
  | none => simp
  | some key' => simp

theorem netmask_eq_ok_iff {m : ℕ} :
    v.settings.netmask = .ok m ↔ ∃ n, v.settings.subnet = .v4 n ∧ n.prefixlen = m ∧ m ≠ 0 := by
  unfold CentralizedVpnSettings.netmask
  cases v.settings.subnet with
  | v6 n => simp
  | v4 n =>
    change ipv4NetmaskToCidr n.netmask = .ok m ↔ _
    rw [ipv4NetmaskToCidr_netmask]
    split_ifs with h
    · simp [h]
      omega
    · simp only [Except.ok.injEq, IPNetwork.v4.injEq, exists_eq_left']
      constructor
      · rintro rfl
        exact ⟨rfl, h⟩
      · exact And.left

theorem add_v4_eq_ok_iff {a : IPv4Address} {offset : ℕ} {b : IPAddress} :
    (IPAddress.v4 a).add offset = .ok b ↔ ∃ h : a.toNat + offset < 2 ^ 32, b = .v4 ⟨a.toNat + offset, h⟩ := by
  change (IPv4Address.ofNat (a.toNat + offset) >>= fun b => .ok (.v4 b)) = Except.ok b ↔ _
  by_cases h : a.toNat + offset < 2 ^ 32
  · rw [IPv4Address.ofNat_eq_ok h, Except.ok_bind, Except.ok.injEq, eq_comm]
    exact ⟨fun heq => ⟨h, heq⟩, fun ⟨_, heq⟩ => heq⟩
  · rw [IPv4Address.ofNat_eq_error (Nat.not_lt.mp h), Except.error_bind]
    exact ⟨nofun, fun ⟨hlt, _⟩ => absurd hlt h⟩

theorem rootIp_eq_ok_iff {n : IPv4Network} (hn : v.settings.subnet = .v4 n) {a : IPAddress} :
    v.rootIp = .ok a ↔ ∃ h : n.networkAddress.toNat + 1 < 2 ^ 32, a = .v4 ⟨_, h⟩ := by
  rw [rootIp, CentralizedVpnSettings.baseIp, hn]
  exact add_v4_eq_ok_iff

theorem peerIp_eq_ok_iff {n : IPv4Network} (hn : v.settings.subnet = .v4 n) {p : ℕ} {a : IPAddress} :
    v.peerIp p = .ok a ↔ ∃ h : n.networkAddress.toNat + 1 + p < 2 ^ 32, a = .v4 ⟨_, h⟩ := by
  rw [peerIp, Except.bind_eq_ok_iff]
  constructor
  · rintro ⟨root, hroot, hadd⟩
    obtain ⟨hlt, rfl⟩ := (rootIp_eq_ok_iff hn).mp hroot
    exact add_v4_eq_ok_iff.mp hadd
  · rintro ⟨hlt, rfl⟩
    have hroot : n.networkAddress.toNat + 1 < 2 ^ 32 := by omega
    exact ⟨_, (rootIp_eq_ok_iff hn).mpr ⟨hroot, rfl⟩, add_v4_eq_ok_iff.mpr ⟨hlt, rfl⟩⟩

theorem name_eq_ok_iff (i : ℕ) :
    (∃ name, v.settings.interface.format i = .ok name) ↔ v.settings.interface.fields ≤ 1 := by
  unfold InterfaceTemplate.format
  split_ifs with h <;> simp [h]

theorem rootPeer_eq_ok_iff {p : ℕ} (hp : 0 < p) {entry : Peer} :
    v.rootPeer p = .ok entry ↔ ∃ key psk address, v.keymat.Holds p key psk ∧ v.peerIp p = .ok address ∧
      entry = {
        id := p
        pubkey := key.publicKey
        psk := psk.value
        address := address
        allowed := [address]
        endpoint := (v.peerEndpoint p).map fun host => ⟨host, v.peerPort⟩
        keepalive := if truthy (v.peerEndpoint p) then some v.settings.keepalive else none } := by
  unfold rootPeer
  simp only [Except.bind_eq_ok_iff, Except.ok.injEq]
  constructor
  · rintro ⟨⟨key, psk⟩, hkeys, address, haddress, rfl⟩
    exact ⟨key, psk, address, (CentralizedVpnKeyMaterial.unpack_getPeerMaterial_eq_ok_iff hp).mp
      (Except.bind_eq_ok_iff.mpr hkeys), haddress, rfl⟩
  · rintro ⟨key, psk, address, hholds, haddress, rfl⟩
    exact ⟨(key, psk), Except.bind_eq_ok_iff.mp
      ((CentralizedVpnKeyMaterial.unpack_getPeerMaterial_eq_ok_iff hp).mpr hholds), address, haddress, rfl⟩

theorem rootConfig_eq_ok_iff {root : Config} :
    v.rootConfig = .ok root ↔ ∃ name key address netmask peers,
      v.settings.interface.format 1 = .ok name ∧ v.keymat.rootKey = some key ∧ v.rootIp = .ok address ∧
      v.settings.netmask = .ok netmask ∧
      List.Forall₂ (fun p entry => v.rootPeer p = .ok entry) v.peerIds peers ∧
      root = {
        intf := {
          name := name
          privkey := key.privateKey
          address := address
          netmask := netmask
          port := v.rootEndpoint.map fun _ => v.settings.port
          endpoint := v.rootEndpoint.map fun host => ⟨host, v.settings.port⟩
          mtu := v.settings.peerMtu }
        peers := peers
        masquerade := v.settings.masquerade
        forward := v.settings.forward
        tunnel := v.settings.tunnel
        tunnelRoot := true } := by
  unfold rootConfig
  simp only [Except.bind_eq_ok_iff, rootKey_eq_ok_iff, Fold.mapM_eq_ok_iff, Except.ok.injEq]
  constructor
  · rintro ⟨name, hname, key, hkey, address, haddress, netmask, hnetmask, peers, hpeers, rfl⟩
    exact ⟨name, key, address, netmask, peers, hname, hkey, haddress, hnetmask, hpeers, rfl⟩
  · rintro ⟨name, key, address, netmask, peers, hname, hkey, haddress, hnetmask, hpeers, rfl⟩
    exact ⟨name, hname, key, hkey, address, haddress, netmask, hnetmask, peers, hpeers, rfl⟩

theorem peerConfig_eq_ok_iff {p : ℕ} (hp : 0 < p) {cfg : Config} :
    v.peerConfig p = .ok cfg ↔ ∃ key psk name address netmask rootKey rootAddress,
      v.keymat.Holds p key psk ∧ v.settings.interface.format 0 = .ok name ∧ v.peerIp p = .ok address ∧
      v.settings.netmask = .ok netmask ∧ v.keymat.rootKey = some rootKey ∧ v.rootIp = .ok rootAddress ∧
      cfg = {
        intf := {
          name := name
          privkey := key.privateKey
          address := address
          netmask := netmask
          port := if truthy (v.peerEndpoint p) then some v.peerPort else none
          endpoint := if truthy (v.peerEndpoint p) then
            (v.peerEndpoint p).map fun host => ⟨host, v.peerPort⟩ else none
          mtu := v.settings.peerMtu }
        peers := [{
          id := 0
          pubkey := rootKey.publicKey
          psk := psk.value
          address := rootAddress
          allowed := [rootAddress]
          endpoint := if truthy (v.peerEndpoint p) then none
            else v.rootEndpoint.map fun host => ⟨host, v.settings.port⟩
          keepalive := if truthy (v.peerEndpoint p) then none else some v.settings.keepalive }]
        masquerade := v.settings.masquerade
        forward := v.settings.forward
        tunnel := v.settings.tunnel
        tunnelRoot := false } := by
  unfold peerConfig
  rw [Except.bind_eq_ok_iff]
  constructor
  · rintro ⟨⟨key, psk⟩, hkeys, h⟩
    have hholds := (CentralizedVpnKeyMaterial.unpack_getPeerMaterial_eq_ok_iff hp).mp hkeys
    simp only [Except.bind_eq_ok_iff, rootKey_eq_ok_iff, Except.ok.injEq] at h
    obtain ⟨name, hname, address, haddress, netmask, hnetmask, rootKey, hroot, rootAddress, hrootIp, rfl⟩ := h
    exact ⟨key, psk, name, address, netmask, rootKey, rootAddress, hholds, hname, haddress, hnetmask, hroot,
      hrootIp, rfl⟩
  · rintro ⟨key, psk, name, address, netmask, rootKey, rootAddress, hholds, hname, haddress, hnetmask, hroot,
      hrootIp, rfl⟩
    refine ⟨(key, psk), (CentralizedVpnKeyMaterial.unpack_getPeerMaterial_eq_ok_iff hp).mpr hholds, ?_⟩
    simp only [Except.bind_eq_ok_iff, rootKey_eq_ok_iff, Except.ok.injEq]
    exact ⟨name, hname, address, haddress, netmask, hnetmask, rootKey, hroot, rootAddress, hrootIp, rfl⟩

theorem exists_rootConfig_iff (hids : v.Assigned) : (∃ root, v.rootConfig = .ok root) ↔ v.Buildable := by
  constructor
  · rintro ⟨root, hroot⟩
    obtain ⟨name, key, address, netmask, peers, hname, hkey, haddress, hnetmask, hpeers, -⟩ :=
      rootConfig_eq_ok_iff.mp hroot
    obtain ⟨n, hn, rfl, hne⟩ := netmask_eq_ok_iff.mp hnetmask
    obtain ⟨hlt, -⟩ := (rootIp_eq_ok_iff hn).mp haddress
    have hentries := Fold.exists_mapM_eq_ok.mp ⟨peers, Fold.mapM_eq_ok_iff.mpr hpeers⟩
    refine ⟨(name_eq_ok_iff 1).mp ⟨name, hname⟩, by rw [hkey]; nofun, fun p hp => ?_, n, hn, hne, hlt,
      fun p hp => ?_⟩
    · obtain ⟨entry, hentry⟩ := hentries p hp
      obtain ⟨key, psk, -, hholds, -⟩ := (rootPeer_eq_ok_iff (hids.2 p hp)).mp hentry
      exact ⟨key, psk, hholds⟩
    · obtain ⟨entry, hentry⟩ := hentries p hp
      obtain ⟨-, -, address, -, hip, -⟩ := (rootPeer_eq_ok_iff (hids.2 p hp)).mp hentry
      exact ((peerIp_eq_ok_iff hn).mp hip).1
  · intro h
    obtain ⟨n, hn, hne, hlt, hpeers⟩ := h.subnet
    obtain ⟨name, hname⟩ := (name_eq_ok_iff 1).mpr h.fields
    obtain ⟨key, hkey⟩ := Option.ne_none_iff_exists'.mp h.rootKey
    have hentries : ∀ p ∈ v.peerIds, ∃ entry, v.rootPeer p = .ok entry := by
      intro p hp
      obtain ⟨key, psk, hholds⟩ := h.keys p hp
      exact ⟨_, (rootPeer_eq_ok_iff (hids.2 p hp)).mpr
        ⟨key, psk, _, hholds, (peerIp_eq_ok_iff hn).mpr ⟨hpeers p hp, rfl⟩, rfl⟩⟩
    obtain ⟨peers, hmap⟩ := Fold.exists_mapM_eq_ok.mpr hentries
    exact ⟨_, rootConfig_eq_ok_iff.mpr ⟨name, key, _, n.prefixlen, peers, hname, hkey,
      (rootIp_eq_ok_iff hn).mpr ⟨hlt, rfl⟩, netmask_eq_ok_iff.mpr ⟨n, hn, rfl, hne⟩,
      Fold.mapM_eq_ok_iff.mp hmap, rfl⟩⟩

theorem Buildable.exists_peerConfig (h : v.Buildable) {p : ℕ} (hmem : p ∈ v.peerIds) (hp : 0 < p) :
    ∃ cfg, v.peerConfig p = .ok cfg := by
  obtain ⟨n, hn, hne, hlt, hpeers⟩ := h.subnet
  obtain ⟨name, hname⟩ := (name_eq_ok_iff 0).mpr h.fields
  obtain ⟨rootKey, hroot⟩ := Option.ne_none_iff_exists'.mp h.rootKey
  obtain ⟨key, psk, hholds⟩ := h.keys p hmem
  exact ⟨_, (peerConfig_eq_ok_iff hp).mpr ⟨key, psk, name, _, n.prefixlen, rootKey, _, hholds, hname,
    (peerIp_eq_ok_iff hn).mpr ⟨hpeers p hmem, rfl⟩, netmask_eq_ok_iff.mpr ⟨n, hn, rfl, hne⟩, hroot,
    (rootIp_eq_ok_iff hn).mpr ⟨hlt, rfl⟩, rfl⟩⟩

theorem build_eq_ok_iff {root : Config} {peers : List Config} :
    v.build = .ok (root, peers) ↔
      v.rootConfig = .ok root ∧ List.Forall₂ (fun p cfg => v.peerConfig p = .ok cfg) v.peerIds peers := by
  unfold build
  simp only [Except.bind_eq_ok_iff, Fold.mapM_eq_ok_iff, Except.ok.injEq, Prod.mk.injEq]
  constructor
  · rintro ⟨_, hroot, _, hpeers, rfl, rfl⟩
    exact ⟨hroot, hpeers⟩
  · rintro ⟨hroot, hpeers⟩
    exact ⟨_, hroot, _, hpeers, rfl, rfl⟩

theorem exists_build_iff (hids : v.Assigned) : (∃ r, v.build = .ok r) ↔ v.Buildable := by
  rw [← exists_rootConfig_iff hids]
  constructor
  · rintro ⟨⟨root, peers⟩, h⟩
    exact ⟨root, (build_eq_ok_iff.mp h).1⟩
  · rintro ⟨root, hroot⟩
    have hbuild := (exists_rootConfig_iff hids).mp ⟨root, hroot⟩
    obtain ⟨peers, hpeers⟩ := Fold.exists_mapM_eq_ok.mpr
      fun p hp => hbuild.exists_peerConfig hp (hids.2 p hp)
    exact ⟨(root, peers), build_eq_ok_iff.mpr ⟨hroot, Fold.mapM_eq_ok_iff.mp hpeers⟩⟩

end CentralizedVpnConfig

end Uno
