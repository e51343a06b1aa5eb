import Uno.Deploy.Deployments
import Mathlib.Data.List.Sort
import Std.Data.String.ToNat

/-!
# Backbone configurations

`P2pVpnConfig.peerConfig` derives the WireGuard interfaces of one cell from the deployment map, the
key material of its pairs and the addresses of the cells. It is run once for each cell while the
configuration is built (`assertKeys`), which generates the missing keys.

Once every pair of the deployment has its keys, `peerConfig` changes nothing.
-/

namespace Uno

open PairedValuesMap

/-! ### Records -/

structure WireGuardKeyPair where
  privateKey : String
  publicKey : String
  deriving DecidableEq

/-- `host:port`. -/
structure Endpoint where
  host : String
  port : ℕ
  deriving DecidableEq

structure WireGuardInterfaceConfig where
  name : String
  privkey : String
  address : IPv4Address
  netmask : ℕ
  port : ℕ
  endpoint : Option Endpoint
  mtu : ℕ
  deriving DecidableEq

structure WireGuardInterfacePeerConfig where
  id : ℕ
  pubkey : String
  psk : String
  address : IPv4Address
  allowed : List String
  endpoint : Option Endpoint
  keepalive : Option ℕ
  deriving DecidableEq

structure WireGuardConfig where
  intf : WireGuardInterfaceConfig
  peers : List WireGuardInterfacePeerConfig
  masquerade : Bool
  forward : Bool
  tunnel : Bool
  deriving DecidableEq

/-- A name template: literal text and `{}` fields. -/
abbrev InterfaceTemplate := List (Option String)

namespace InterfaceTemplate

def fields (t : InterfaceTemplate) : ℕ := t.count none

/-- The text with `i` in every field. -/
def render (t : InterfaceTemplate) (i : ℕ) : String :=
  t.foldr (fun piece rest => piece.getD i.repr ++ rest) ""

/-- `template.format(i)`: a second field has no argument. -/
def format (t : InterfaceTemplate) (i : ℕ) : Result String :=
  if t.fields ≤ 1 then .ok (t.render i) else .error .index

theorem render_of_fields_eq_zero {t : InterfaceTemplate} (h : t.fields = 0) (i j : ℕ) :
    t.render i = t.render j := by
  induction t with
  | nil => rfl
  | cons piece rest ih =>
    cases piece with
    | none => simp [fields] at h
    | some text =>
      have hrest : fields rest = 0 := by simpa [fields] using h
      exact congrArg (text ++ ·) (ih hrest)

theorem render_injective {t : InterfaceTemplate} (h : t.fields = 1) : Function.Injective t.render := by
  intro i j hij
  induction t with
  | nil => simp [fields] at h
  | cons piece rest ih =>
    cases piece with
    | none =>
      have hrest : fields rest = 0 := by simpa [fields] using h
      change i.repr ++ render rest i = j.repr ++ render rest j at hij
      rw [render_of_fields_eq_zero hrest i j, String.append_left_inj] at hij
      exact Nat.repr_injective hij
    | some text =>
      have hrest : fields rest = 1 := by simpa [fields] using h
      exact ih hrest ((String.append_right_inj text).mp hij)

theorem format_eq_ok {t : InterfaceTemplate} (h : t.fields = 1) (i : ℕ) :
    t.format i = .ok (t.render i) := by
  rw [format, if_pos h.le]

end InterfaceTemplate

structure VpnSettings where
  port : ℕ
  subnet : IPv4Network
  interface : InterfaceTemplate
  allowedIps : List String
  peerMtu : ℕ
  masquerade : Bool
  forward : Bool
  tunnel : Bool
  keepalive : ℕ

/-- A cell of the backbone. `prepare_address` rejects an empty address. -/
structure Cell where
  address : Option String
  allowedLans : List String
  address_ne : address ≠ some ""
  deriving DecidableEq

/-! ### Key material -/

/-- What `wg genkey`, `wg pubkey` and `wg genpsk` return, call after call. -/
structure KeySource where
  keypair : ℕ → WireGuardKeyPair
  psk : ℕ → String

/-- The keys of the backbone links and the number of keys generated so far. -/
structure P2pVpnKeyMaterial where
  pairKeys : PairedValuesMap (WireGuardKeyPair × WireGuardKeyPair)
  presharedKeys : PairedValuesMap String
  generated : ℕ

namespace P2pVpnKeyMaterial

variable (source : KeySource)

def generatePair (_peerA _peerB : ℕ) : StateT ℕ Result (WireGuardKeyPair × WireGuardKeyPair) :=
  fun n => .ok ((source.keypair n, source.keypair (n + 1)), n + 2)

def generatePsk (_peerA _peerB : ℕ) : StateT ℕ Result String := fun n => .ok (source.psk n, n + 1)

def assertPair (k : P2pVpnKeyMaterial) (peerA peerB : ℕ) :
    Result ((((WireGuardKeyPair × WireGuardKeyPair) × String) × Bool) × P2pVpnKeyMaterial) := do
  let (((keys, assertedK), pairKeys), generated) ←
    PairedValuesMap.assertPair (generatePair source) k.pairKeys peerA peerB k.generated
  let (((psk, assertedP), presharedKeys), generated) ←
    PairedValuesMap.assertPair (generatePsk source) k.presharedKeys peerA peerB generated
  .ok (((keys, psk), assertedK || assertedP), ⟨pairKeys, presharedKeys, generated⟩)

end P2pVpnKeyMaterial

/-! ### Configurations -/

structure P2pVpnConfig where
  settings : VpnSettings
  deployment : P2pLinksMap
  peerIds : List ℕ
  peerEndpoints : Dict ℕ (Option String)

/-- `dict[key]`. -/
def pyGetItem {α : Type} (d : Dict ℕ α) (k : ℕ) : Result α :=
  match d.get? k with
  | some v => .ok v
  | none => .error (.key k)

namespace IPv4Network

/-- `str(network)`. -/
def toText (n : IPv4Network) : String :=
  let a := n.networkAddress.toNat
  s!"{a / 2 ^ 24}.{a / 2 ^ 16 % 256}.{a / 2 ^ 8 % 256}.{a % 256}/{n.prefixlen}"

end IPv4Network

namespace P2pVpnConfig

/-- The interface of `peer` for its link with `peerB`. -/
def linkConfig (settings : VpnSettings) (name : String) (peer peerB : ℕ) (link linkB : Link)
    (keymat : WireGuardKeyPair × WireGuardKeyPair) (psk : String) (endpoint endpointB : Option String) :
    WireGuardConfig where
  intf :=
    { name := name
      privkey := (pick peer peerB peer keymat).privateKey
      address := link.address
      -- the mask of `link.network`, as the number of its bits
      netmask := link.network.prefixlen
      port := if truthy endpoint then settings.port + link.port else 0
      endpoint := if truthy endpoint then
        endpoint.map fun host => ⟨host, settings.port + link.port⟩ else none
      mtu := settings.peerMtu }
  peers :=
    [{ id := peerB
       pubkey := (pick peer peerB peerB keymat).publicKey
       psk := psk
       address := link.peerAddress
       allowed := (settings.subnet.toText :: settings.allowedIps).insertionSort (· ≤ ·)
       endpoint := if truthy endpointB then
         endpointB.map fun host => ⟨host, settings.port + linkB.port⟩ else none
       keepalive := if endpoint = none then some settings.keepalive else none }]
  masquerade := settings.masquerade
  forward := settings.forward
  tunnel := settings.tunnel

variable (source : KeySource)

/-- The configurations and the key material, after the link `x.2` of `peer` with `x.1`. -/
def linkStep (vpn : P2pVpnConfig) (peer : ℕ) (acc : List WireGuardConfig × P2pVpnKeyMaterial)
    (x : ℕ × Link) : Result (List WireGuardConfig × P2pVpnKeyMaterial) := do
  let peerBDeployCfg ← pyGetItem vpn.deployment x.1
  let linkB ← pyGetItem peerBDeployCfg.peers peer
  let (((keymat, psk), _), k) ← acc.2.assertPair source peer x.1
  let endpoint ← pyGetItem vpn.peerEndpoints peer
  let endpointB ← pyGetItem vpn.peerEndpoints x.1
  let name ← vpn.settings.interface.format x.2.port
  .ok (acc.1 ++ [linkConfig vpn.settings name peer x.1 x.2 linkB keymat psk endpoint endpointB], k)

def peerConfig (vpn : P2pVpnConfig) (peer : ℕ) (k : P2pVpnKeyMaterial) :
    Result (List WireGuardConfig × P2pVpnKeyMaterial) :=
  match vpn.deployment.get? peer with
  | none => .ok ([], k)
  | some deployCfg => deployCfg.peers.entries.foldlM (vpn.linkStep source peer) ([], k)

/-- `assert_keys`, run when the configuration is built. -/
def assertKeys (vpn : P2pVpnConfig) (k : P2pVpnKeyMaterial) : Result P2pVpnKeyMaterial :=
  vpn.peerIds.foldlM (fun k peer => do
    let (_, k) ← vpn.peerConfig source peer k
    .ok k) k

end P2pVpnConfig

/-- `UvnVpnConfig.backbone_vpn`, for the active cells of the UVN. -/
def backboneVpn (settings : VpnSettings) (cells : Dict ℕ Cell) (deployment : P2pLinksMap) :
    P2pVpnConfig where
  settings :=
    { settings with
      allowedIps := (settings.allowedIps ++ cells.values.flatMap Cell.allowedLans).dedup.insertionSort
        (· ≤ ·) }
  deployment := deployment
  peerIds := cells.keys.insertionSort (· ≤ ·)
  peerEndpoints := cells.map fun cell => cell.address

/-- The cells without an address. -/
def privateCells (cells : Dict ℕ Cell) : Finset ℕ :=
  cells.keys.toFinset.filter fun id => ¬ truthy ((cells.get? id).bind Cell.address)

/-- `redeploy`: the network map is fresh. -/
def redeploy (o : Orders) (strategy : DeploymentStrategyKind) (settings : VpnSettings)
    (cells : Dict ℕ Cell) : Result P2pLinksMap := do
  let networkMap ← P2pLinkAllocationMap.new settings.subnet
  let (links, _) ← strategy.deploy o cells.keys.toFinset (privateCells cells) networkMap
  .ok links

end Uno
