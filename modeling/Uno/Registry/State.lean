import Uno.Registry.Export
import Uno.Registry.Generate
import Uno.Vpn.Material
import Uno.Vpn.AllowedIps

/-!
# Registries and their artifacts

A registry with its keys and the deployment of its backbone, the operations that change it, and
`generate_artifacts`: the keys of peers that are gone are purged, the backbone is deployed again if cells
changed, the configurations of all VPNs are built, which asserts their keys, and the packages of the cells and
particles are made of them.
-/

namespace Uno

/-- A new row of the table of particles. -/
def Uvn.insertParticle (u : Uvn) (owner : Option ℕ) : Uvn :=
  { u with
    particleRows := u.particleRows ++ [⟨u.nextParticleId + 1, owner.getD u.owner, false⟩]
    nextParticleId := u.nextParticleId + 1
    particleIds_nodup := by
      rw [List.map_append]
      refine u.particleIds_nodup.append (List.nodup_singleton _) fun i hi hi' => ?_
      obtain ⟨p, hp, rfl⟩ := List.mem_map.mp hi
      have hle := u.particleIds_le p hp
      have heq : p.id = u.nextParticleId + 1 := List.mem_singleton.mp hi'
      omega
    particleIds_le := by
      intro p hp
      rcases List.mem_append.mp hp with hp | hp
      · exact (u.particleIds_le p hp).trans (Nat.le_succ _)
      · rw [List.mem_singleton.mp hp] }

/-- `Cell.configure`: values that are not given stay, and LANs with the same members are no change. -/
def CellRow.configure (c : CellRow) (address : Option String) (allowedLans : Option (List IPv4Network)) : CellRow :=
  { c with
    address := address <|> c.address
    allowedLans := allowedLans.elim c.allowedLans fun lans =>
      if c.allowedLans.toFinset = lans.toFinset then c.allowedLans else lans }

/-- The cell with the id is configured. -/
def Uvn.configureCell (u : Uvn) (id : ℕ) (address : Option String) (allowedLans : Option (List IPv4Network)) : Uvn :=
  u.mapCells (fun c => if c.id = id then c.configure address allowedLans else c) fun c => by split_ifs <;> rfl

/-- What a registry uses besides its tables: the settings, and where keys come from. -/
structure Setup where
  settings : UvnSettings
  strategy : DeploymentStrategyKind
  /-- The value of a key pair or a preshared key of a centralized VPN, by the id of its row. -/
  source : Vpn → ℕ → String
  linkSource : KeySource
  /-- What `wg pubkey` computes. -/
  pubkey : String → String

structure RegistryState where
  keys : RegistryKeys
  deployment : Option P2pLinksMap
  /-- Whether `deployment_config` is among the changed properties. -/
  redeploys : Bool

/-- The key pair of one end of a link. -/
def WireGuardKeyPair.toKey (pair : ℕ × ℕ) (i : ℕ) (key : WireGuardKeyPair) : AsymmKey :=
  ⟨.pair .backbone pair i, key.publicKey, some key.privateKey, false⟩

/-- `backbone_vpn_keymat`. -/
def P2pVpnKeyMaterial.backboneKeys (k : P2pVpnKeyMaterial) : BackboneKeys where
  pairKeys := k.pairKeys.mapEntries fun pair keys => (keys.1.toKey pair 0, keys.2.toKey pair 1)
  presharedKeys := k.presharedKeys.mapEntries fun pair psk => ⟨⟨.backbone, pair⟩, some psk, false⟩

namespace RegistryState

/-- A registry without cells and particles. -/
def create (owner : ℕ) (address : Option String) (enableRootVpn : Bool) : RegistryState where
  keys := {
    registry := {
      uvn := {
        owner := owner
        address := address
        enableRootVpn := enableRootVpn
        cellRows := []
        particleRows := []
        nextCellId := 0
        nextParticleId := 0
        cellIds_nodup := Uvn.nodup_no_cellIds
        cellIds_le := Uvn.no_cellIds_le
        particleIds_nodup := Uvn.nodup_no_particleIds
        particleIds_le := Uvn.no_particleIds_le }
      userRows := [⟨owner, false⟩]
      dirty := true }
    rekeying := false
    rootVpn := .load ⟨.empty, .empty⟩
    particlesVpns := fun _ => .load ⟨.empty, .empty⟩
    backboneVpn := ⟨∅, ∅, 0⟩
    rekeyed := none }
  deployment := none
  redeploys := false

section generate
variable (setup : Setup) (o : Orders) (s : RegistryState)

def uvn : Uvn := s.keys.uvn

/-! ### Configurations -/

/-- `vpn_config.root_vpn`. -/
def rootVpn : Option CentralizedVpnConfig :=
  rootVpnConfig setup.settings s.uvn (s.keys.rootVpn.material setup.pubkey .root s.uvn.activeIds)

/-- `vpn_config.rekeyed_root_vpn`: its key material asserts its keys, too. -/
def rekeyedRootVpn : Result (Option CentralizedVpnConfig) :=
  if s.keys.rekeying && s.uvn.enableRootVpn then do
    let m ← (Keymat.loadRekeyed s.keys.rootVpn.rows).assertKeys (setup.source .root) s.uvn.activeIds
    .ok (rootVpnConfig setup.settings s.uvn (m.material setup.pubkey .root s.uvn.activeIds))
  else .ok none

/-- `vpn_config.particles_vpn`. -/
def particlesVpn (c : CellRow) : Option CentralizedVpnConfig :=
  Uno.particlesVpn setup.settings s.uvn c
    ((s.keys.particlesVpns c.id).material setup.pubkey (.particles c.id) s.uvn.activeParticleIds)

/-- `vpn_config.backbone_vpn`. -/
def backboneVpn : Option P2pVpnConfig :=
  s.deployment.map (Uno.backboneVpn setup.settings.backboneVpn s.uvn.backboneCells)

/-! ### `generate_artifacts` -/

def needsRedeployment : Bool := s.deployment.isNone || s.redeploys

/-- `redeploy`, and the keys of the former links are deleted. -/
def redeployBackbone : Result RegistryState := do
  let deployment ← redeploy o setup.strategy setup.settings.backboneVpn s.uvn.backboneCells
  .ok { s with
    keys := { s.keys with backboneVpn := ⟨∅, ∅, s.keys.backboneVpn.generated⟩ }
    deployment := some deployment }

def redeployIfNeeded : Result RegistryState :=
  if s.needsRedeployment then s.redeployBackbone setup o else .ok s

/-- What precedes `assert_keys`. -/
def prepare : Result RegistryState := do
  let keys ← s.keys.purgeKeys
  let s ← redeployIfNeeded setup o { s with keys := keys }
  let keys ← s.keys.save
  .ok { s with keys := keys, redeploys := false }

/-- A writable configuration is built where there is one. -/
def buildSome : Option CentralizedVpnConfig → Result Unit
  | none => .ok ()
  | some v => do
    let _ ← v.build
    .ok ()

def assertBackbone : Result RegistryState :=
  match s.backboneVpn setup with
  | none => .ok s
  | some vpn => do
    let k ← vpn.assertKeys setup.linkSource s.keys.backboneVpn
    .ok { s with keys := { s.keys with backboneVpn := k } }

/-- `vpn_config.assert_keys`: the configurations of the root VPN, the backbone and the particles VPNs are built,
each once its keys are asserted. -/
def assertKeys : Result RegistryState := do
  let keys ← s.keys.assertRootKeys setup.source
  let s := { s with keys := keys }
  buildSome (s.rootVpn setup)
  let s ← s.assertBackbone setup
  let keys ← s.keys.assertParticlesKeys setup.settings setup.source
  let s := { s with keys := keys }
  forM s.uvn.cells fun c => buildSome (s.particlesVpn setup c)
  .ok s

/-- The active keys of all VPNs. -/
def activeKeys : ActiveKeys where
  root := s.keys.rootVpn.material setup.pubkey .root s.uvn.activeIds
  particles c := (s.keys.particlesVpns c).material setup.pubkey (.particles c) s.uvn.activeParticleIds
  backbone := s.keys.backboneVpn.backboneKeys

/-- `generate_cell_agent_package` lists the keys of the cell: those of the root VPN even if it is disabled. -/
def packageCell (c : CellRow) : Result Unit := do
  let _ ← (s.activeKeys setup).cellKeyMaterial c.id (c.enableParticlesVpn setup.settings)
  .ok ()

/-- `generate_particle_package`: the configurations of a particle. -/
def packageParticle (p : ℕ) : Result Unit :=
  forM s.uvn.cells fun c =>
    match s.particlesVpn setup c with
    | none => .ok ()
    | some v => do
      let _ ← v.peerConfig p
      .ok ()

/-- The packages, which the code makes only if something changed. -/
def makePackages : Result Unit := do
  forM s.uvn.cells (s.packageCell setup)
  forM s.uvn.activeParticleIds (s.packageParticle setup)

def generate : Result RegistryState := do
  let s ← s.prepare setup o
  let s ← s.assertKeys setup
  let keys ← s.keys.save
  let s := { s with keys := keys }
  s.makePackages setup
  .ok s

end generate

variable {setup : Setup} {s t : RegistryState} {o : Orders}

theorem generate_eq_ok (hok : s.generate setup o = .ok t) : ∃ s₁ s₂ keys,
    s.prepare setup o = .ok s₁ ∧ s₁.assertKeys setup = .ok s₂ ∧ s₂.keys.save = .ok keys ∧
      t = { s₂ with keys := keys } ∧ t.makePackages setup = .ok () := by
  obtain ⟨s₁, hprepare, hok⟩ := Except.bind_eq_ok_iff.mp hok
  obtain ⟨s₂, hassert, hok⟩ := Except.bind_eq_ok_iff.mp hok
  obtain ⟨keys, hsave, hok⟩ := Except.bind_eq_ok_iff.mp hok
  obtain ⟨_, hpackages, heq⟩ := Except.bind_eq_ok_iff.mp hok
  exact ⟨s₁, s₂, keys, hprepare, hassert, hsave, (Except.ok.inj heq).symm, Except.ok.inj heq ▸ hpackages⟩

/-! ### What `generate_artifacts` leaves -/

theorem uvn_save {keys keys' : RegistryKeys} (hok : keys.save = .ok keys') : keys'.uvn = keys.uvn := by
  obtain ⟨registry, hregistry, hok⟩ := Except.bind_eq_ok_iff.mp hok
  obtain ⟨root, -, hok⟩ := Except.bind_eq_ok_iff.mp hok
  obtain ⟨particles, -, heq⟩ := Except.bind_eq_ok_iff.mp hok
  obtain rfl := Except.ok.inj heq
  exact (Registry.save_eq_ok hregistry).1

theorem purgeKeys_frame {keys keys' : RegistryKeys} (hok : keys.purgeKeys = .ok keys') :
    keys'.uvn = keys.uvn ∧ keys'.rekeying = keys.rekeying := by
  obtain ⟨root, -, hok⟩ := Except.bind_eq_ok_iff.mp hok
  obtain ⟨particles, -, heq⟩ := Except.bind_eq_ok_iff.mp hok
  obtain rfl := Except.ok.inj heq
  exact ⟨rfl, rfl⟩

theorem save_frame {keys keys' : RegistryKeys} (hok : keys.save = .ok keys') :
    keys'.uvn = keys.uvn ∧ keys'.rekeying = keys.rekeying := by
  refine ⟨uvn_save hok, ?_⟩
  obtain ⟨registry, -, hok⟩ := Except.bind_eq_ok_iff.mp hok
  obtain ⟨root, -, hok⟩ := Except.bind_eq_ok_iff.mp hok
  obtain ⟨particles, -, heq⟩ := Except.bind_eq_ok_iff.mp hok
  obtain rfl := Except.ok.inj heq
  rfl

theorem assertRootKeys_frame {keys keys' : RegistryKeys} {source : Vpn → ℕ → String}
    (hok : keys.assertRootKeys source = .ok keys') : keys'.uvn = keys.uvn ∧ keys'.rekeying = keys.rekeying := by
  refine RegistryKeys.onlyIf_invariant (I := fun r => r.uvn = keys.uvn ∧ r.rekeying = keys.rekeying) ⟨rfl, rfl⟩
    (fun _ s₁ hstep => ?_) hok
  obtain ⟨m, -, heq⟩ := Except.bind_eq_ok_iff.mp hstep
  obtain rfl := Except.ok.inj heq
  exact ⟨rfl, rfl⟩

theorem assertKeys_frame (hok : s.assertKeys setup = .ok t) :
    t.uvn = s.uvn ∧ t.keys.rekeying = s.keys.rekeying ∧ t.deployment = s.deployment := by
  obtain ⟨keys, hroot, hok⟩ := Except.bind_eq_ok_iff.mp hok
  obtain ⟨_, -, hok⟩ := Except.bind_eq_ok_iff.mp hok
  obtain ⟨s₁, hbackbone, hok⟩ := Except.bind_eq_ok_iff.mp hok
  obtain ⟨keys', hparticles, hok⟩ := Except.bind_eq_ok_iff.mp hok
  obtain ⟨_, -, heq⟩ := Except.bind_eq_ok_iff.mp hok
  obtain rfl := Except.ok.inj heq
  obtain ⟨particles, -, heq⟩ := Except.bind_eq_ok_iff.mp hparticles
  obtain rfl := Except.ok.inj heq
  obtain ⟨huvn, hrekeying⟩ := assertRootKeys_frame hroot
  have hframe : s₁.uvn = s.uvn ∧ s₁.keys.rekeying = s.keys.rekeying ∧ s₁.deployment = s.deployment := by
    unfold assertBackbone at hbackbone
    split at hbackbone
    · obtain rfl := Except.ok.inj hbackbone
      exact ⟨huvn, hrekeying, rfl⟩
    · obtain ⟨k, -, heq⟩ := Except.bind_eq_ok_iff.mp hbackbone
      obtain rfl := Except.ok.inj heq
      exact ⟨huvn, hrekeying, rfl⟩
  exact hframe

theorem prepare_frame (hok : s.prepare setup o = .ok t) :
    t.uvn = s.uvn ∧ t.keys.rekeying = s.keys.rekeying ∧
      if s.needsRedeployment then ∃ d, t.deployment = some d ∧
        redeploy o setup.strategy setup.settings.backboneVpn s.uvn.backboneCells = .ok d
      else t.deployment = s.deployment := by
  obtain ⟨keys, hpurge, hok⟩ := Except.bind_eq_ok_iff.mp hok
  obtain ⟨s₁, hredeploy, hok⟩ := Except.bind_eq_ok_iff.mp hok
  obtain ⟨keys', hsave, heq⟩ := Except.bind_eq_ok_iff.mp hok
  obtain rfl := Except.ok.inj heq
  obtain ⟨huvn, hrekeying⟩ := purgeKeys_frame hpurge
  obtain ⟨huvn', hrekeying'⟩ := save_frame hsave
  have hneeds : needsRedeployment { s with keys := keys } = s.needsRedeployment := rfl
  unfold redeployIfNeeded at hredeploy
  rw [hneeds] at hredeploy
  split_ifs at hredeploy with hneeded
  · obtain ⟨d, hd, heq⟩ := Except.bind_eq_ok_iff.mp hredeploy
    obtain rfl := Except.ok.inj heq
    rw [if_pos hneeded]
    refine ⟨huvn'.trans huvn, hrekeying'.trans hrekeying, d, rfl, ?_⟩
    rw [← show keys.uvn = s.uvn from huvn]
    exact hd
  · obtain rfl := Except.ok.inj hredeploy
    rw [if_neg hneeded]
    exact ⟨huvn'.trans huvn, hrekeying'.trans hrekeying, rfl⟩

/-- `generate_artifacts` changes no rows of cells and particles, and deploys the backbone only if it has to. -/
theorem generate_frame (hok : s.generate setup o = .ok t) :
    t.uvn = s.uvn ∧ t.keys.rekeying = s.keys.rekeying ∧
      if s.needsRedeployment then ∃ d, t.deployment = some d ∧
        redeploy o setup.strategy setup.settings.backboneVpn s.uvn.backboneCells = .ok d
      else t.deployment = s.deployment := by
  obtain ⟨s₁, s₂, keys, hprepare, hassert, hsave, rfl, -⟩ := generate_eq_ok hok
  obtain ⟨huvn₁, hrekeying₁, hdeployed⟩ := prepare_frame hprepare
  obtain ⟨huvn₂, hrekeying₂, hdeployment⟩ := assertKeys_frame hassert
  obtain ⟨huvn₃, hrekeying₃⟩ := save_frame hsave
  refine ⟨huvn₃.trans (huvn₂.trans huvn₁), hrekeying₃.trans (hrekeying₂.trans hrekeying₁), ?_⟩
  show if s.needsRedeployment then ∃ d, s₂.deployment = some d ∧ _ else s₂.deployment = s.deployment
  rw [hdeployment]
  exact hdeployed

/-! ### Operations -/

def setRegistry (s : RegistryState) (registry : Registry) : RegistryState :=
  { s with keys := { s.keys with registry := registry } }

end RegistryState

/-- The operations on cells, particles and keys. -/
inductive RegistryAct where
  | addCell (owner : Option ℕ) (address : Option String) (allowedLans : List IPv4Network)
  | updateCell (id : ℕ) (address : Option String) (allowedLans : Option (List IPv4Network))
  | addParticle (owner : Option ℕ)
  | ban (targets : List Target) (banned unbanOwned : Bool) (answer : Target → Bool)
  | deleteCell (c : ℕ)
  | deleteParticle (p : ℕ)
  | rekeyUvn (rootVpn particlesVpn : Bool)
  | rekeyCell (c : ℕ) (rootVpn particlesVpn : Bool)
  | rekeyParticle (p : ℕ) (cells : List ℕ)

/-- Changes of the cells change `deployment_config`. -/
def RegistryAct.apply (s : RegistryState) : RegistryAct → Result RegistryState
  | .addCell owner address allowedLans =>
    -- `prepare_address`
    if address = some "" then .error (.value "invalid cell address")
    else do
      let registry ← s.keys.registry.addCell owner address allowedLans
      .ok { s.setRegistry registry with redeploys := true }
  | .updateCell id address allowedLans =>
    if address = some "" then .error (.value "invalid cell address")
    else match s.uvn.cellRows.find? fun c => c.id = id with
      | none => .error .stopIteration
      | some c =>
        if c.configure address allowedLans = c then .ok s
        else
          let uvn := s.uvn.configureCell id address allowedLans
          .ok { s.setRegistry { s.keys.registry with uvn := uvn, dirty := true } with redeploys := true }
  | .addParticle owner =>
    .ok (s.setRegistry { s.keys.registry with uvn := s.uvn.insertParticle owner, dirty := true })
  | .ban targets banned unbanOwned answer => do
    let registry ← s.keys.registry.ban targets banned unbanOwned answer
    let collected := s.keys.registry.collectTargets targets banned unbanOwned answer
    .ok { s.setRegistry registry with
      redeploys := s.redeploys || s.uvn.cellRows.any fun c => .cell c.id ∈ collected ∧ c.excluded ≠ banned }
  | .deleteCell c => do
    let keys ← s.keys.deleteCell c
    .ok { s with keys := keys, redeploys := true }
  | .deleteParticle p => do
    let keys ← s.keys.deleteParticle p
    .ok { s with keys := keys }
  | .rekeyUvn rootVpn particlesVpn => do
    let keys ← s.keys.rekeyUvn rootVpn particlesVpn false
    .ok { s with keys := keys }
  | .rekeyCell c rootVpn particlesVpn => do
    let keys ← s.keys.rekeyCell c rootVpn particlesVpn false
    .ok { s with keys := keys }
  | .rekeyParticle p cells => do
    let keys ← s.keys.rekeyParticle p cells
    .ok { s with keys := keys }

/-- An operation, followed by `generate_artifacts`. -/
def RegistryState.step (setup : Setup) (s : RegistryState) (a : RegistryAct × Orders) : Result RegistryState := do
  (← a.1.apply s).generate setup a.2

end Uno
