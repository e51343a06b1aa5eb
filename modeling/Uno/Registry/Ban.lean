import Uno.Registry.Package

/-!
# Banning

What is banned is excluded from the backbone and its deployment, from the particles VPNs, and from the packages, in
the registry and in what the agents of the active cells compute; the root VPN alone is built from all cells, so that a
banned cell stays one of its peers (`banned_excluded`). What is unbanned again is where it would be without the ban
(`unban_restores`). So a ban is honoured if it leaves no cell banned, or if there is no root VPN (`ban_honoured_iff`).
-/

namespace Uno

open PairedValuesMap

/-! ### Peers of configurations -/

namespace CentralizedVpnConfig

variable {v : CentralizedVpnConfig} {cfg : Config} {p : ℕ}

/-- The peers of the configuration of the root. -/
def HasPeers (v : CentralizedVpnConfig) (ids : List ℕ) : Prop :=
  ∃ cfg, v.rootConfig = .ok cfg ∧ cfg.peers.map Peer.id = ids

theorem rootPeer_id {entry : Peer} (h : v.rootPeer p = .ok entry) : entry.id = p := by
  obtain ⟨⟨key, psk⟩, -, h⟩ := Except.bind_eq_ok_iff.mp h
  obtain ⟨address, -, heq⟩ := Except.bind_eq_ok_iff.mp h
  obtain rfl := Except.ok.inj heq
  rfl

theorem rootConfig_peers (h : v.rootConfig = .ok cfg) : cfg.peers.map Peer.id = v.peerIds := by
  obtain ⟨name, key, address, netmask, peers, -, -, -, -, hpeers, rfl⟩ := rootConfig_eq_ok_iff.mp h
  show peers.map Peer.id = v.peerIds
  rw [← List.map_id v.peerIds]
  exact (List.forall₂_eq_eq_eq ▸ List.forall₂_map_left_iff.mpr (List.forall₂_map_right_iff.mpr
    (hpeers.flip.imp fun _ _ hpeer => rootPeer_id hpeer)) : _)

theorem peerConfig_peers (h : v.peerConfig p = .ok cfg) : cfg.peers.map Peer.id = [0] := by
  obtain ⟨⟨key, psk⟩, -, h⟩ := Except.bind_eq_ok_iff.mp h
  obtain ⟨name, -, h⟩ := Except.bind_eq_ok_iff.mp h
  obtain ⟨address, -, h⟩ := Except.bind_eq_ok_iff.mp h
  obtain ⟨netmask, -, h⟩ := Except.bind_eq_ok_iff.mp h
  obtain ⟨rootKey, -, h⟩ := Except.bind_eq_ok_iff.mp h
  obtain ⟨rootAddress, -, heq⟩ := Except.bind_eq_ok_iff.mp h
  obtain rfl := Except.ok.inj heq
  rfl

theorem Buildable.hasPeers (h : v.Buildable) (hassigned : v.Assigned) : v.HasPeers v.peerIds := by
  obtain ⟨r, hbuild⟩ := (exists_build_iff hassigned).mpr h
  obtain ⟨root, hroot, -⟩ := Except.bind_eq_ok_iff.mp hbuild
  exact ⟨root, hroot, rootConfig_peers hroot⟩

end CentralizedVpnConfig

namespace P2pVpnConfig

variable {source : KeySource} {vpn : P2pVpnConfig} {k k' : P2pVpnKeyMaterial} {a : ℕ} {cfgs : List WireGuardConfig}

/-- The peers of configurations are linked with their cell. -/
def OnlyLinked (vpn : P2pVpnConfig) (a : ℕ) (cfgs : List WireGuardConfig) : Prop :=
  ∀ cfg ∈ cfgs, ∀ e ∈ cfg.peers, vpn.deployment.ListsPeer a e.id

theorem OnlyLinked.append {x : ℕ × Link} (h : vpn.OnlyLinked a cfgs) (hlists : vpn.deployment.ListsPeer a x.1)
    (settings : VpnSettings) (name : String) (linkB : Link) (keymat : WireGuardKeyPair × WireGuardKeyPair)
    (psk : String)
    (endpoint endpointB : Option String) :
    vpn.OnlyLinked a (cfgs ++ [linkConfig settings name a x.1 x.2 linkB keymat psk endpoint endpointB]) := by
  intro cfg hcfg e he
  rcases List.mem_append.mp hcfg with hcfg | hcfg
  · exact h cfg hcfg e he
  · rw [List.mem_singleton.mp hcfg] at he
    rw [List.mem_singleton.mp he]
    exact hlists

theorem onlyLinked_of_peerConfig (h : vpn.peerConfig source a k = .ok (cfgs, k')) : vpn.OnlyLinked a cfgs := by
  unfold peerConfig at h
  cases hget : vpn.deployment.get? a with
  | none =>
    rw [hget] at h
    obtain rfl := (Prod.mk.inj (Except.ok.inj h)).1
    exact fun cfg hcfg => absurd hcfg List.not_mem_nil
  | some p =>
    rw [hget] at h
    refine Fold.foldlM_invariant (P := fun acc => vpn.OnlyLinked a acc.1) (fun acc acc' x hx hacc hstep => ?_)
      (fun cfg hcfg => absurd hcfg List.not_mem_nil) h
    obtain ⟨_, -, hstep⟩ := Except.bind_eq_ok_iff.mp hstep
    obtain ⟨linkB, -, hstep⟩ := Except.bind_eq_ok_iff.mp hstep
    obtain ⟨⟨⟨⟨keys, psk⟩, g⟩, k₁⟩, -, hstep⟩ := Except.bind_eq_ok_iff.mp hstep
    obtain ⟨endpoint, -, hstep⟩ := Except.bind_eq_ok_iff.mp hstep
    obtain ⟨endpointB, -, hstep⟩ := Except.bind_eq_ok_iff.mp hstep
    obtain ⟨name, -, heq⟩ := Except.bind_eq_ok_iff.mp hstep
    obtain rfl := Except.ok.inj heq
    exact hacc.append ⟨p, hget, List.mem_map_of_mem hx⟩ _ _ _ _ _ _ _

theorem onlyLinked_of_readonlyPeerConfig (h : vpn.readonlyPeerConfig a k = .ok cfgs) : vpn.OnlyLinked a cfgs := by
  unfold readonlyPeerConfig at h
  cases hget : vpn.deployment.get? a with
  | none =>
    rw [hget] at h
    obtain rfl := Except.ok.inj h
    exact fun cfg hcfg => absurd hcfg List.not_mem_nil
  | some p =>
    rw [hget] at h
    refine Fold.foldlM_invariant (P := vpn.OnlyLinked a) (fun acc acc' x hx hacc hstep => ?_)
      (fun cfg hcfg => absurd hcfg List.not_mem_nil) h
    obtain ⟨_, -, hstep⟩ := Except.bind_eq_ok_iff.mp hstep
    obtain ⟨linkB, -, hstep⟩ := Except.bind_eq_ok_iff.mp hstep
    obtain ⟨⟨keys, psk⟩, -, hstep⟩ := Except.bind_eq_ok_iff.mp hstep
    obtain ⟨endpoint, -, hstep⟩ := Except.bind_eq_ok_iff.mp hstep
    obtain ⟨endpointB, -, hstep⟩ := Except.bind_eq_ok_iff.mp hstep
    obtain ⟨name, -, heq⟩ := Except.bind_eq_ok_iff.mp hstep
    obtain rfl := Except.ok.inj heq
    exact hacc.append ⟨p, hget, List.mem_map_of_mem hx⟩ _ _ _ _ _ _ _

end P2pVpnConfig

/-- No configuration that an agent computes from its package has a banned peer, if it is computed at all. -/
structure CellPackage.ExcludesBanned (package : CellPackage) (c : CellRow) : Prop where
  root : ∀ v, package.rootVpn = some v → ∀ cfg, v.peerConfig c.id = .ok cfg → ∀ d ∈ package.uvn.excludedCells,
    d.id ∉ cfg.peers.map CentralizedVpnConfig.Peer.id
  particles : ∀ v, package.particlesVpn c = some v → ∀ ids, v.HasPeers ids →
    ∀ p ∈ package.uvn.excludedParticles, p.id ∉ ids
  backbone : ∀ vpn, package.backboneVpn = some vpn → ∀ cfgs,
    vpn.readonlyPeerConfig c.id package.keys.backboneKeymat = .ok cfgs →
      ∀ cfg ∈ cfgs, ∀ e ∈ cfg.peers, ∀ d ∈ package.uvn.excludedCells, e.id ≠ d.id

namespace RegistryState

section properties
variable (setup : Setup) (ids : KeyRowIds)

/-- The packages that `generate_artifacts` makes. -/
def packages (t : RegistryState) : List Target :=
  t.uvn.cells.map (fun c => .cell c.id) ++ t.uvn.particles.map fun p => .particle p.id

/-- No configuration of the registry's particles VPNs and backbone, or of the agent of an active cell has a banned peer,
no link has a banned end, and what is banned has no package. -/
structure ExcludesBanned (t : RegistryState) : Prop where
  particles : ∀ c ∈ t.uvn.cells, ∀ v, t.particlesVpn setup c = some v →
    ∃ peers, v.HasPeers peers ∧ ∀ p ∈ t.uvn.excludedParticles, p.id ∉ peers
  backbone : ∀ vpn, t.backboneVpn setup = some vpn → ∀ a cfgs k,
    vpn.peerConfig setup.linkSource a t.keys.backboneVpn = .ok (cfgs, k) →
      ∀ cfg ∈ cfgs, ∀ e ∈ cfg.peers, ∀ d ∈ t.uvn.excludedCells, e.id ≠ d.id
  deployment : ∀ links, t.deployment = some links → ∀ a b, links.ListsPeer a b →
    ∀ d ∈ t.uvn.excludedCells, a ≠ d.id ∧ b ≠ d.id
  packages : (∀ d ∈ t.uvn.excludedCells, .cell d.id ∉ t.packages) ∧
    ∀ p ∈ t.uvn.excludedParticles, .particle p.id ∉ t.packages
  agents : ∀ c ∈ t.uvn.cells, ∀ package, t.cellPackage setup ids c = .ok package → package.ExcludesBanned c

/-- The root VPN, and the one that is used until a new configuration is distributed, have all cells as their peers. -/
structure RootKeepsAll (t : RegistryState) : Prop where
  root : ∀ v, t.rootVpn setup = some v → ∃ peers, v.HasPeers peers ∧ ∀ p, p ∈ peers ↔ ∃ c ∈ t.uvn.cellRows, c.id = p
  rekeyed : ∃ v?, t.rekeyedRootVpn setup = .ok v? ∧ ∀ v, v? = some v →
    ∃ peers, v.HasPeers peers ∧ ∀ p, p ∈ peers ↔ ∃ c ∈ t.uvn.cellRows, c.id = p

/-- The root VPN, and the one that is used until a new configuration is distributed, have no banned peer. -/
structure RootExcludesBanned (t : RegistryState) : Prop where
  root : ∀ v, t.rootVpn setup = some v → ∃ peers, v.HasPeers peers ∧ ∀ d ∈ t.uvn.excludedCells, d.id ∉ peers
  rekeyed : ∃ v?, t.rekeyedRootVpn setup = .ok v? ∧ ∀ v, v? = some v →
    ∃ peers, v.HasPeers peers ∧ ∀ d ∈ t.uvn.excludedCells, d.id ∉ peers

/-- The configuration of the root of a centralized VPN, if there is one, has the same peers. -/
def SamePeers (v? v'? : Option CentralizedVpnConfig) : Prop :=
  (v? = none ∧ v'? = none) ∨ ∃ v v' peers, v? = some v ∧ v'? = some v' ∧ v.HasPeers peers ∧ v'.HasPeers peers

/-- The configurations of a registry have the peers that they have in another one. The deployment is that of the other
one, or one of the same cells. -/
structure Restored (o : Orders) (u t : RegistryState) : Prop where
  rows : u.uvn.cellRows = t.uvn.cellRows ∧ u.uvn.particleRows = t.uvn.particleRows
  root : SamePeers (u.rootVpn setup) (t.rootVpn setup)
  particles : ∀ c ∈ t.uvn.cells, SamePeers (u.particlesVpn setup c) (t.particlesVpn setup c)
  deployment : u.deployment = t.deployment ∨ ∃ d, u.deployment = some d ∧
    redeploy o setup.strategy setup.settings.backboneVpn t.uvn.backboneCells = .ok d
  packages : u.packages = t.packages

end properties

variable {setup : Setup} {ids : KeyRowIds} {s s' t u : RegistryState} {o : Orders} {c : CellRow}

end RegistryState

/-! ### What a ban collects -/

/-- A row is collected: it is a target, or its owner is and its mark would change. -/
def Collects (targets : List Target) (banned unbanOwned : Bool) (answer : Target → Bool) (self : Target) (owner : ℕ)
    (excluded : Bool) : Prop :=
  ∃ t ∈ targets, answer t = true ∧
    (t = self ∨ (banned || unbanOwned) = true ∧ t = .user owner ∧ excluded ≠ banned)

namespace Registry

variable {r : Registry} {targets : List Target} {banned unbanOwned : Bool} {answer : Target → Bool} {t : Target}

theorem exists_row_iff {ρ : Type} {rows : List ρ} {id : ρ → ℕ} (hnodup : (rows.map id).Nodup) {P : ρ → Prop} {x : ρ}
    (hx : x ∈ rows) : (∃ y, (y ∈ rows ∧ P y) ∧ id y = id x) ↔ P x := by
  constructor
  · rintro ⟨y, ⟨hy, hP⟩, heq⟩
    obtain rfl := List.inj_on_of_nodup_map hnodup hy hx heq
    exact hP
  · exact fun hP => ⟨x, ⟨hx, hP⟩, rfl⟩

theorem cell_mem_owned {c : CellRow} (hc : c ∈ r.uvn.cellRows) :
    .cell c.id ∈ r.owned banned t ↔ t = .user c.owner ∧ c.excluded ≠ banned := by
  cases t with
  | user u =>
    simp only [owned, List.mem_append, List.mem_map, List.mem_filter, decide_eq_true_eq, Target.cell.injEq,
      reduceCtorEq, and_false, exists_false, or_false, Target.user.injEq]
    rw [exists_row_iff r.uvn.cellIds_nodup hc, eq_comm]
  | cell d => simp [owned]
  | particle p => simp [owned]

theorem particle_mem_owned {p : ParticleRow} (hp : p ∈ r.uvn.particleRows) :
    .particle p.id ∈ r.owned banned t ↔ t = .user p.owner ∧ p.excluded ≠ banned := by
  cases t with
  | user u =>
    simp only [owned, List.mem_append, List.mem_map, List.mem_filter, decide_eq_true_eq, Target.particle.injEq,
      reduceCtorEq, and_false, exists_false, false_or, Target.user.injEq]
    rw [exists_row_iff r.uvn.particleIds_nodup hp, eq_comm]
  | cell d => simp [owned]
  | particle q => simp [owned]

theorem mem_collectTargets_iff {x : Target} : x ∈ r.collectTargets targets banned unbanOwned answer ↔
    ∃ t ∈ targets, answer t = true ∧ (t = x ∨ (banned || unbanOwned) = true ∧ x ∈ r.owned banned t) := by
  rw [collectTargets, List.mem_flatMap]
  refine exists_congr fun t => and_congr_right fun _ => ?_
  cases answer t with
  | false => simp
  | true =>
    cases banned || unbanOwned with
    | false => simp [eq_comm]
    | true => simp [eq_comm]

theorem cell_mem_collectTargets {c : CellRow} (hc : c ∈ r.uvn.cellRows) :
    .cell c.id ∈ r.collectTargets targets banned unbanOwned answer ↔
      Collects targets banned unbanOwned answer (.cell c.id) c.owner c.excluded := by
  rw [mem_collectTargets_iff, Collects]
  simp only [cell_mem_owned hc]

theorem particle_mem_collectTargets {p : ParticleRow} (hp : p ∈ r.uvn.particleRows) :
    .particle p.id ∈ r.collectTargets targets banned unbanOwned answer ↔
      Collects targets banned unbanOwned answer (.particle p.id) p.owner p.excluded := by
  rw [mem_collectTargets_iff, Collects]
  simp only [particle_mem_owned hp]

end Registry

theorem Collects.restore {targets : List Target} {unbanOwned : Bool} {answer : Target → Bool} {self : Target}
    {owner : ℕ} {excluded : Bool} {m m' m'' : Prop} [Decidable m] [Decidable m'] [Decidable m''] (hsub : m → m')
    (hm' : m' ↔ Collects targets false unbanOwned answer self owner (if m then true else excluded))
    (hm'' : m'' ↔ Collects targets false unbanOwned answer self owner excluded) :
    (if m' then false else if m then true else excluded) = if m'' then false else excluded := by
  by_cases hm : m
  · rw [if_pos (hsub hm)]
    rw [if_pos hm] at hm'
    cases excluded with
    | false => simp
    | true => rw [if_pos (hm''.mpr (hm'.mp (hsub hm)))]
  · rw [if_neg hm] at hm' ⊢
    exact if_congr (hm'.trans hm''.symm) rfl rfl

theorem CellRow.mark_eq (c : CellRow) (m : Prop) [Decidable m] (b : Bool) :
    (if m then { c with excluded := b } else c) = { c with excluded := if m then b else c.excluded } := by
  split_ifs <;> rfl

theorem ParticleRow.mark_eq (p : ParticleRow) (m : Prop) [Decidable m] (b : Bool) :
    (if m then { p with excluded := b } else p) = { p with excluded := if m then b else p.excluded } := by
  split_ifs <;> rfl

namespace Registry

variable {r r₁ : Registry} {collected targets : List Target} {unbanOwned : Bool} {answer : Target → Bool}

/-- Rows that are excluded and included again are as if they had only been included. -/
theorem rows_exclude_include (huvn : r₁.uvn = (r.exclude collected true).uvn)
    (hsub : ∀ x ∈ collected, x ∈ r₁.collectTargets targets false unbanOwned answer) :
    (r₁.exclude (r₁.collectTargets targets false unbanOwned answer) false).uvn.cellRows =
        (r.exclude (r.collectTargets targets false unbanOwned answer) false).uvn.cellRows ∧
      (r₁.exclude (r₁.collectTargets targets false unbanOwned answer) false).uvn.particleRows =
        (r.exclude (r.collectTargets targets false unbanOwned answer) false).uvn.particleRows := by
  have hcells : r₁.uvn.cellRows =
      r.uvn.cellRows.map fun c => if .cell c.id ∈ collected then { c with excluded := true } else c := by
    rw [huvn]
    rfl
  have hparticles : r₁.uvn.particleRows =
      r.uvn.particleRows.map fun p => if .particle p.id ∈ collected then { p with excluded := true } else p := by
    rw [huvn]
    rfl
  constructor
  · show r₁.uvn.cellRows.map _ = r.uvn.cellRows.map _
    rw [hcells, List.map_map]
    refine List.map_congr_left fun c hc => ?_
    have hmem := List.mem_map_of_mem (f := fun c : CellRow =>
      if .cell c.id ∈ collected then { c with excluded := true } else c) hc
    rw [← hcells] at hmem
    have hiff := @cell_mem_collectTargets r₁ targets false unbanOwned answer _ hmem
    have hiff' := @cell_mem_collectTargets r targets false unbanOwned answer _ hc
    simp only [CellRow.mark_eq] at hiff
    rw [Function.comp_apply, CellRow.mark_eq, CellRow.mark_eq, CellRow.mark_eq]
    rw [← Collects.restore (hsub _) hiff hiff']
  · show r₁.uvn.particleRows.map _ = r.uvn.particleRows.map _
    rw [hparticles, List.map_map]
    refine List.map_congr_left fun p hp => ?_
    have hmem := List.mem_map_of_mem (f := fun p : ParticleRow =>
      if .particle p.id ∈ collected then { p with excluded := true } else p) hp
    rw [← hparticles] at hmem
    have hiff := @particle_mem_collectTargets r₁ targets false unbanOwned answer _ hmem
    have hiff' := @particle_mem_collectTargets r targets false unbanOwned answer _ hp
    simp only [ParticleRow.mark_eq] at hiff
    rw [Function.comp_apply, ParticleRow.mark_eq, ParticleRow.mark_eq, ParticleRow.mark_eq]
    rw [← Collects.restore (hsub _) hiff hiff']

end Registry

namespace RegistryState

variable {setup : Setup} {ids : KeyRowIds} {s s' t u : RegistryState} {o : Orders} {c : CellRow}

/-! ### Configurations of reachable states -/

theorem Reachable.step {a : RegistryAct × Orders} (h : s.Reachable setup) (hstep : s.step setup a = .ok t) :
    t.Reachable setup := by
  obtain ⟨owner, address, enableRootVpn, o, s₀, hinit, hrun⟩ := h
  exact ⟨owner, address, enableRootVpn, o, s₀, hinit, .step a hrun trivial hstep⟩

theorem assigned_rootVpnConfig (hpos : ∀ c ∈ t.uvn.cellRows, 0 < c.id) {keymat : CentralizedVpnKeyMaterial}
    {v : CentralizedVpnConfig} (hv : rootVpnConfig setup.settings t.uvn keymat = some v) : v.Assigned := by
  unfold rootVpnConfig at hv
  split_ifs at hv
  obtain rfl := Option.some.inj hv
  refine ⟨Uvn.sortedCells_ids_nodup, fun p hp => ?_⟩
  obtain ⟨c, hc, rfl⟩ := List.mem_map.mp hp
  exact hpos c (Uvn.mem_sortedCells.mp hc)

theorem exists_rootBuild_of_generate (hok : s.generate setup o = .ok t) :
    ∃ s' : RegistryState, s'.uvn = t.uvn ∧ ∀ v, s'.rootVpn setup = some v → ∃ r, v.build = .ok r := by
  obtain ⟨s₁, s₂, keys, -, hassert, hsave, rfl, -⟩ := generate_eq_ok hok
  have huvn : keys.uvn = s₁.uvn := (save_frame hsave).1.trans (assertKeys_frame hassert).1
  obtain ⟨keys', hroot, hassert⟩ := Except.bind_eq_ok_iff.mp hassert
  obtain ⟨⟨⟩, hbuild, -⟩ := Except.bind_eq_ok_iff.mp hassert
  refine ⟨{ s₁ with keys := keys' }, ?_, fun v hv => ?_⟩
  · show keys'.uvn = keys.uvn
    rw [huvn]
    exact (assertRootKeys_frame hroot).1
  · rw [hv] at hbuild
    obtain ⟨r, hr, -⟩ := Except.bind_eq_ok_iff.mp hbuild
    exact ⟨r, hr⟩

theorem Reachable.hasPeers_rootVpnConfig (h : t.Reachable setup) {keymat : CentralizedVpnKeyMaterial}
    {v : CentralizedVpnConfig} (hv : rootVpnConfig setup.settings t.uvn keymat = some v) (hkeys : v.KeysComplete) :
    v.HasPeers (t.uvn.sortedCells.map CellRow.id) := by
  obtain ⟨s, o, hgenerate⟩ := h.exists_generate
  obtain ⟨s', huvn, hbuild⟩ := exists_rootBuild_of_generate hgenerate
  have hassigned := assigned_rootVpnConfig h.complete.1.cellIds_pos hv
  unfold rootVpnConfig at hv
  split_ifs at hv with henabled
  obtain rfl := Option.some.inj hv
  have hroot : s'.rootVpn setup = rootVpnConfig setup.settings t.uvn
      (s'.keys.rootVpn.material setup.pubkey .root t.uvn.activeIds) := by rw [rootVpn, huvn]
  rw [rootVpnConfig, if_pos henabled] at hroot
  exact CentralizedVpnConfig.Buildable.hasPeers (.of_built hassigned (hbuild _ hroot) hkeys) hassigned

theorem Reachable.hasPeers_rootVpn (h : t.Reachable setup) {v : CentralizedVpnConfig} (hv : t.rootVpn setup = some v) :
    v.HasPeers (t.uvn.sortedCells.map CellRow.id) :=
  h.hasPeers_rootVpnConfig hv (h.complete.1.keysAvailable.root v hv).1

theorem Reachable.hasPeers_particlesVpn (h : t.Reachable setup) (hc : c ∈ t.uvn.cells) {v : CentralizedVpnConfig}
    (hv : t.particlesVpn setup c = some v) : v.HasPeers v.peerIds := by
  obtain ⟨hbuildable, hassigned⟩ := h.buildable_particlesVpn hc hv
  exact hbuildable.hasPeers hassigned

theorem peerIds_particlesVpn {settings : UvnSettings} {uvn : Uvn} {keymat : CentralizedVpnKeyMaterial}
    {v : CentralizedVpnConfig} (hv : Uno.particlesVpn settings uvn c keymat = some v) :
    v.peerIds = (uvn.particles.map ParticleRow.id).insertionSort (· ≤ ·) := by
  unfold Uno.particlesVpn at hv
  split_ifs at hv
  obtain rfl := Option.some.inj hv
  rfl

/-! ### What is banned is excluded -/

theorem not_mem_particles {uvn : Uvn} {p : ParticleRow} (hp : p ∈ uvn.excludedParticles) :
    p.id ∉ (uvn.particles.map ParticleRow.id).insertionSort (· ≤ ·) := by
  intro hmem
  obtain ⟨q, hq, heq⟩ := List.mem_map.mp ((List.mem_insertionSort _).mp hmem)
  obtain ⟨hrow, hactive⟩ := List.mem_filter.mp hq
  obtain ⟨hrow', hexcluded⟩ := List.mem_filter.mp hp
  obtain rfl := List.inj_on_of_nodup_map uvn.particleIds_nodup hrow hrow' heq
  simp [hexcluded] at hactive

theorem not_mem_cells {uvn : Uvn} {d : CellRow} (hd : d ∈ uvn.excludedCells) : d.id ∉ uvn.cells.map CellRow.id := by
  intro hmem
  obtain ⟨c, hc, heq⟩ := List.mem_map.mp hmem
  obtain ⟨hrow, hactive⟩ := List.mem_filter.mp hc
  obtain ⟨hrow', hexcluded⟩ := List.mem_filter.mp hd
  obtain rfl := List.inj_on_of_nodup_map uvn.cellIds_nodup hrow hrow' heq
  simp [hexcluded] at hactive

theorem Complete.active_of_listsPeer (h : t.Complete setup) {links : P2pLinksMap} (hlinks : t.deployment = some links)
    {a b : ℕ} (hab : links.ListsPeer a b) : a ∈ t.uvn.cells.map CellRow.id ∧ b ∈ t.uvn.cells.map CellRow.id := by
  obtain ⟨vpn, hvpn, hlinkable⟩ := h.deployed h.settled
  rw [backboneVpn, hlinks, Option.map_some, Option.some.injEq] at hvpn
  obtain rfl := hvpn
  obtain ⟨p, hp, hb⟩ := hab
  obtain ⟨linkB, endpoint, endpointB, hlink⟩ := hlinkable a p b hp hb
  have hactive : ∀ i e, (Uno.backboneVpn setup.settings.backboneVpn t.uvn.backboneCells links).peerEndpoints.get? i =
      some e → i ∈ t.uvn.cells.map CellRow.id := by
    intro i e hget
    have hmem := List.mem_map_of_mem (f := Prod.fst) (Dict.get?_eq_some_iff.mp hget)
    obtain ⟨e', he', heq⟩ := List.mem_map.mp hmem
    obtain ⟨e'', he'', rfl⟩ := List.mem_map.mp he'
    obtain ⟨c, hc, rfl⟩ := List.mem_map.mp he''
    exact List.mem_map.mpr ⟨c, hc, heq⟩
  exact ⟨hactive a _ hlink.endpoint, hactive b _ hlink.endpointB⟩

/-- No link of the backbone has a banned end, whatever addresses the backbone already allowed. -/
theorem Complete.links_exclude (h : t.Complete setup) {links : P2pLinksMap} (hlinks : t.deployment = some links)
    {a b : ℕ} (hab : links.ListsPeer a b) {d : CellRow} (hd : d ∈ t.uvn.excludedCells) : a ≠ d.id ∧ b ≠ d.id := by
  obtain ⟨ha, hb⟩ := h.active_of_listsPeer hlinks hab
  refine ⟨?_, ?_⟩
  · rintro rfl
    exact not_mem_cells hd ha
  · rintro rfl
    exact not_mem_cells hd hb

theorem Complete.package_excludes (h : t.Complete setup) (hvalid : (t.uvnKeys setup ids).Valid) (hc : c ∈ t.uvn.cells)
    {package : CellPackage} (hpackage : t.cellPackage setup ids c = .ok package) : package.ExcludesBanned c := by
  obtain rfl := h.of_cellPackage hvalid hc hpackage
  refine ⟨fun v _ cfg hcfg d hd => ?_, fun v hv peers hpeers p hp => ?_,
    fun vpn hvpn cfgs hcfgs cfg hcfg e he d hd => ?_⟩
  · rw [CentralizedVpnConfig.peerConfig_peers hcfg, List.mem_singleton]
    have hpos := h.cellIds_pos d (List.mem_of_mem_filter hd)
    omega
  · obtain ⟨cfg, hcfg, rfl⟩ := hpeers
    rw [CentralizedVpnConfig.rootConfig_peers hcfg, peerIds_particlesVpn hv]
    exact not_mem_particles hp
  · obtain ⟨links, hlinks, rfl⟩ := Option.map_eq_some_iff.mp hvpn
    have hlists := P2pVpnConfig.onlyLinked_of_readonlyPeerConfig hcfgs cfg hcfg e he
    exact (h.links_exclude hlinks hlists hd).2

theorem Reachable.excludesBanned (h : t.Reachable setup) (hunique : (t.uvnKeys setup ids).Unique) :
    t.ExcludesBanned setup ids := by
  obtain ⟨hcomplete, hlinkKeys⟩ := h.complete
  have hvalid : (t.uvnKeys setup ids).Valid := hcomplete.valid_uvnKeys hlinkKeys hunique
  refine ⟨fun c hc v hv => ?_, fun vpn hvpn a cfgs k hcfgs cfg hcfg e he d hd => ?_,
    fun links hlinks a b hab d hd => ?_, ⟨fun d hd hmem => ?_, fun p hp hmem => ?_⟩, fun c hc package hpackage => ?_⟩
  · refine ⟨_, h.hasPeers_particlesVpn hc hv, fun p hp => ?_⟩
    rw [peerIds_particlesVpn hv]
    exact not_mem_particles hp
  · obtain ⟨links, hlinks, rfl⟩ := Option.map_eq_some_iff.mp hvpn
    have hlists := P2pVpnConfig.onlyLinked_of_peerConfig hcfgs cfg hcfg e he
    exact (hcomplete.links_exclude hlinks hlists hd).2
  · exact hcomplete.links_exclude hlinks hab hd
  · rcases List.mem_append.mp hmem with hmem | hmem
    · obtain ⟨c, hc, heq⟩ := List.mem_map.mp hmem
      exact not_mem_cells hd (List.mem_map.mpr ⟨c, hc, Target.cell.inj heq⟩)
    · obtain ⟨p, -, heq⟩ := List.mem_map.mp hmem
      cases heq
  · rcases List.mem_append.mp hmem with hmem | hmem
    · obtain ⟨c, -, heq⟩ := List.mem_map.mp hmem
      cases heq
    · obtain ⟨q, hq, heq⟩ := List.mem_map.mp hmem
      refine not_mem_particles hp ((List.mem_insertionSort _).mpr (List.mem_map.mpr ⟨q, hq, Target.particle.inj heq⟩))
  · exact hcomplete.package_excludes hvalid hc hpackage

theorem Reachable.rootKeepsAll (h : t.Reachable setup) : t.RootKeepsAll setup := by
  have hall : ∀ p, p ∈ t.uvn.sortedCells.map CellRow.id ↔ ∃ c ∈ t.uvn.cellRows, c.id = p := by
    intro p
    rw [List.mem_map]
    exact exists_congr fun c => and_congr_left fun _ => Uvn.mem_sortedCells
  refine ⟨fun v hv => ⟨_, h.hasPeers_rootVpn hv, hall⟩, ?_⟩
  obtain ⟨v?, hv?, hkeys⟩ := h.complete.1.keysAvailable.rekeyed
  refine ⟨v?, hv?, fun v hv => ⟨_, ?_, hall⟩⟩
  subst hv
  unfold rekeyedRootVpn at hv?
  split_ifs at hv?
  · obtain ⟨m, -, heq⟩ := Except.bind_eq_ok_iff.mp hv?
    exact h.hasPeers_rootVpnConfig (Except.ok.inj heq) (hkeys v rfl).1
  · cases Except.ok.inj hv?

variable {targets targets' : List Target} {unbanOwned unbanOwned' : Bool} {answer answer' : Target → Bool} {o' : Orders}
  {banned : Bool}

/-- The mark of a cell changes. -/
def Marks (r : Registry) (collected : List Target) (banned : Bool) : Prop :=
  ∃ c ∈ r.uvn.cellRows, .cell c.id ∈ collected ∧ c.excluded ≠ banned

/-- A ban marks what it collects, and deploys the backbone again if a mark of a cell changes. -/
theorem Reachable.ban_frame (h : s.Reachable setup)
    (hstep : s.step setup (.ban targets banned unbanOwned answer, o) = .ok t) {collected : List Target}
    (hcollected : collected = s.keys.registry.collectTargets targets banned unbanOwned answer) :
    t.uvn = (s.keys.registry.exclude collected banned).uvn ∧
      (Marks s.keys.registry collected banned → ∃ d, t.deployment = some d ∧
        redeploy o setup.strategy setup.settings.backboneVpn t.uvn.backboneCells = .ok d) ∧
      (¬ Marks s.keys.registry collected banned → t.deployment = s.deployment) := by
  subst hcollected
  obtain ⟨s₁, happly, hgenerate⟩ := Except.bind_eq_ok_iff.mp hstep
  obtain ⟨registry, hban, heq⟩ := Except.bind_eq_ok_iff.mp happly
  obtain rfl := Except.ok.inj heq
  unfold Registry.ban at hban
  split_ifs at hban
  obtain rfl := Except.ok.inj hban
  obtain ⟨huvn, -, hdeployment⟩ := generate_frame hgenerate
  have hsettled := h.complete.1.settled
  unfold needsRedeployment at hsettled hdeployment
  obtain ⟨hsome, hredeploys⟩ := Bool.or_eq_false_iff.mp hsettled
  simp only [hredeploys, setRegistry, hsome, Bool.false_or, List.any_eq_true, decide_eq_true_eq] at hdeployment
  split_ifs at hdeployment with hmarks
  · refine ⟨huvn, fun _ => ?_, fun hnot => absurd hmarks hnot⟩
    rw [huvn]
    exact hdeployment
  · exact ⟨huvn, fun hyes => absurd hyes hmarks, fun _ => hdeployment⟩

theorem marks_iff {r : Registry} {collected : List Target} :
    Marks r collected banned ↔ (r.exclude collected banned).uvn.cellRows ≠ r.uvn.cellRows := by
  have hmap : (r.exclude collected banned).uvn.cellRows = r.uvn.cellRows ↔
      ∀ c ∈ r.uvn.cellRows, (if .cell c.id ∈ collected then { c with excluded := banned } else c) = c := by
    refine Iff.trans ?_ (List.map_inj_left (g := id))
    rw [List.map_id]
    rfl
  rw [ne_eq, hmap]
  push Not
  refine exists_congr fun c => and_congr_right fun _ => ?_
  split_ifs with hmem
  · refine ⟨fun hne heq => hne.2 (congrArg CellRow.excluded heq).symm, fun hne => ⟨hmem, fun heq => hne ?_⟩⟩
    rw [← heq]
  · exact iff_of_false (fun h => hmem h.1) fun h => h rfl

theorem samePeers_of_hasPeers {v? v'? : Option CentralizedVpnConfig} {peers : List ℕ}
    (hsome : v?.isSome = v'?.isSome) (hv : ∀ v, v? = some v → v.HasPeers peers)
    (hv' : ∀ v, v'? = some v → v.HasPeers peers) : SamePeers v? v'? := by
  cases v? with
  | none =>
    cases v'? with
    | none => exact .inl ⟨rfl, rfl⟩
    | some v' => cases hsome
  | some v =>
    cases v'? with
    | none => cases hsome
    | some v' => exact .inr ⟨v, v', peers, rfl, rfl, hv v rfl, hv' v' rfl⟩

theorem Reachable.restored {b : RegistryState} (h : s.Reachable setup)
    (hban : s.step setup (.ban targets true unbanOwned answer, o) = .ok b)
    (hunban : b.step setup (.ban targets' false unbanOwned' answer', o') = .ok u)
    (hall : ∀ x ∈ s.keys.registry.collectTargets targets true unbanOwned answer,
      x ∈ b.keys.registry.collectTargets targets' false unbanOwned' answer')
    (hplain : s.step setup (.ban targets' false unbanOwned' answer', o') = .ok t) : Restored setup o' u t := by
  have hb := h.step hban
  have hu := hb.step hunban
  have ht := h.step hplain
  obtain ⟨hbanUvn, -, hbanKept⟩ := h.ban_frame hban rfl
  obtain ⟨hunbanUvn, hunbanDeployed, hunbanKept⟩ := hb.ban_frame hunban rfl
  obtain ⟨hplainUvn, -, hplainKept⟩ := h.ban_frame hplain rfl
  obtain ⟨hcells, hparticles⟩ := Registry.rows_exclude_include hbanUvn hall
  rw [← hunbanUvn, ← hplainUvn] at hcells hparticles
  have hactive : u.uvn.cells = t.uvn.cells := congrArg (List.filter _) hcells
  have hactiveParticles : u.uvn.particles = t.uvn.particles := congrArg (List.filter _) hparticles
  have henabled : u.uvn.enableRootVpn = t.uvn.enableRootVpn := by
    rw [hunbanUvn, hplainUvn]
    show b.uvn.enableRootVpn = s.uvn.enableRootVpn
    rw [hbanUvn]
    rfl
  have hsorted : u.uvn.sortedCells = t.uvn.sortedCells := by
    rw [Uvn.sortedCells, Uvn.sortedCells, Uvn.allCells, Uvn.allCells, hactive, Uvn.excludedCells,
      Uvn.excludedCells, hcells]
  refine ⟨⟨hcells, hparticles⟩, ?_, fun c hc => ?_, ?_, ?_⟩
  · refine samePeers_of_hasPeers ?_ (fun v hv => hu.hasPeers_rootVpn hv) fun v hv => ?_
    · rw [rootVpn, rootVpnConfig, rootVpn, rootVpnConfig, henabled]
      split_ifs
      · rfl
      · rfl
    · rw [hsorted]
      exact ht.hasPeers_rootVpn hv
  · refine @samePeers_of_hasPeers _ _ ((t.uvn.particles.map ParticleRow.id).insertionSort (· ≤ ·)) ?_
      (fun v hv => ?_) fun v hv => ?_
    · rw [particlesVpn, Uno.particlesVpn, particlesVpn, Uno.particlesVpn]
      split_ifs
      · rfl
      · rfl
    · have hpeers := hu.hasPeers_particlesVpn (hactive ▸ hc) hv
      rw [peerIds_particlesVpn hv, hactiveParticles] at hpeers
      exact hpeers
    · have hpeers := ht.hasPeers_particlesVpn hc hv
      rw [peerIds_particlesVpn hv] at hpeers
      exact hpeers
  · by_cases hchanged : Marks b.keys.registry (b.keys.registry.collectTargets targets' false unbanOwned' answer') false
    · obtain ⟨d, hd, hredeploy⟩ := hunbanDeployed hchanged
      refine .inr ⟨d, hd, ?_⟩
      rw [← backboneCells_congr hcells]
      exact hredeploy
    · -- nothing was unbanned, so that nothing was banned
      have hunmarked : ¬ Marks s.keys.registry (s.keys.registry.collectTargets targets true unbanOwned answer)
          true := by
        rintro ⟨c, hc, hmem, hne⟩
        refine hchanged ⟨{ c with excluded := true }, ?_, hall _ hmem, fun h => by cases h⟩
        show _ ∈ b.uvn.cellRows
        rw [hbanUvn]
        exact List.mem_map.mpr ⟨c, hc, if_pos hmem⟩
      have hrows : t.uvn.cellRows = s.uvn.cellRows := by
        have hbanRows := not_ne_iff.mp (marks_iff.not.mp hunmarked)
        have hunbanRows := not_ne_iff.mp (marks_iff.not.mp hchanged)
        rw [← hbanUvn] at hbanRows
        rw [← hunbanUvn] at hunbanRows
        exact hcells.symm.trans (hunbanRows.trans hbanRows)
      have hplain : ¬ Marks s.keys.registry (s.keys.registry.collectTargets targets' false unbanOwned' answer')
          false := by
        rw [marks_iff, ← hplainUvn, not_ne_iff]
        exact hrows
      exact .inl ((hunbanKept hchanged).trans ((hbanKept hunmarked).trans (hplainKept hplain).symm))
  · rw [packages, packages, hactive, hactiveParticles]

/-- No cell is banned, and none is collected. -/
def BansNoCell (r : Registry) (collected : List Target) : Prop :=
  ∀ c ∈ r.uvn.cellRows, c.excluded = false ∧ .cell c.id ∉ collected

instance (r : Registry) (collected : List Target) : Decidable (BansNoCell r collected) :=
  inferInstanceAs (Decidable (∀ c ∈ r.uvn.cellRows, _))

/-- After a ban nothing has a banned peer, and an unban of all that the ban collected gives the configurations that it
gives without the ban. -/
structure BanHonoured (setup : Setup) (ids : KeyRowIds) (s : RegistryState) (targets : List Target) (unbanOwned : Bool)
    (answer : Target → Bool) (b : RegistryState) : Prop where
  excluded : b.ExcludesBanned setup ids
  root : b.RootExcludesBanned setup
  restored : ∀ targets' unbanOwned' answer' o' u t,
    b.step setup (.ban targets' false unbanOwned' answer', o') = .ok u →
      (∀ x ∈ s.keys.registry.collectTargets targets true unbanOwned answer,
        x ∈ b.keys.registry.collectTargets targets' false unbanOwned' answer') →
        s.step setup (.ban targets' false unbanOwned' answer', o') = .ok t → Restored setup o' u t

theorem RootKeepsAll.rootExcludesBanned (h : t.RootKeepsAll setup)
    (hnone : t.uvn.enableRootVpn = false ∨ t.uvn.excludedCells = []) : t.RootExcludesBanned setup := by
  have hno : ∀ keymat v, rootVpnConfig setup.settings t.uvn keymat = some v → t.uvn.excludedCells = [] := by
    intro keymat v hv
    refine hnone.resolve_left fun hdisabled => ?_
    rw [rootVpnConfig, hdisabled, if_neg Bool.false_ne_true] at hv
    cases hv
  refine ⟨fun v hv => ?_, ?_⟩
  · obtain ⟨peers, hpeers, -⟩ := h.root v hv
    refine ⟨peers, hpeers, fun d hd => ?_⟩
    rw [hno _ v hv] at hd
    cases hd
  · obtain ⟨v?, hv?, hpeers⟩ := h.rekeyed
    refine ⟨v?, hv?, fun v hv => ?_⟩
    obtain ⟨peers, hpeers, -⟩ := hpeers v hv
    refine ⟨peers, hpeers, fun d hd => ?_⟩
    subst hv
    unfold rekeyedRootVpn at hv?
    split_ifs at hv?
    · obtain ⟨m, -, heq⟩ := Except.bind_eq_ok_iff.mp hv?
      rw [hno _ v (Except.ok.inj heq)] at hd
      cases hd
    · cases Except.ok.inj hv?

theorem RootExcludesBanned.none_of_keepsAll (h : t.RootExcludesBanned setup) (hall : t.RootKeepsAll setup)
    (henabled : t.uvn.enableRootVpn = true) : t.uvn.excludedCells = [] := by
  obtain ⟨v, hv⟩ : ∃ v, t.rootVpn setup = some v := by
    rw [rootVpn, rootVpnConfig, if_pos henabled]
    exact ⟨_, rfl⟩
  obtain ⟨peers, ⟨cfg, hcfg, rfl⟩, hnot⟩ := h.root v hv
  obtain ⟨peers', ⟨cfg', hcfg', rfl⟩, hmem⟩ := hall.root v hv
  obtain rfl := Except.ok.inj (hcfg.symm.trans hcfg')
  exact List.eq_nil_iff_forall_not_mem.mpr fun d hd =>
    hnot d hd ((hmem d.id).mpr ⟨d, List.mem_of_mem_filter hd, rfl⟩)

theorem bansNoCell_iff {r : Registry} {collected : List Target} :
    (r.exclude collected true).uvn.excludedCells = [] ↔ BansNoCell r collected := by
  rw [Uvn.excludedCells, List.filter_eq_nil_iff]
  constructor
  · intro h c hc
    have hmark := h _ (List.mem_map_of_mem hc)
    split_ifs at hmark with hmem
    · exact absurd rfl hmark
    · exact ⟨Bool.eq_false_iff.mpr hmark, hmem⟩
  · intro h c' hc'
    obtain ⟨c, hc, rfl⟩ := List.mem_map.mp hc'
    obtain ⟨hactive, hmem⟩ := h c hc
    rw [if_neg hmem, hactive]
    exact Bool.false_ne_true

/-- No cell has a particles VPN. -/
def banSetup : Setup := { packageSetup with settings := { packageSetup.settings with enableParticlesVpn := false } }

/-- A registry with a cell. -/
def oneCellRun : Result RegistryState := do
  let s ← (create 1 (some "registry.example.com") true).generate banSetup .unshuffled
  s.step banSetup (.addCell none (some "a.example.com") [], .unshuffled)

def oneCell : RegistryState := oneCellRun.toOption.getD (create 1 none false)

/-- Its cell is banned. -/
def bannedCell : RegistryState :=
  (oneCell.step banSetup (.ban [.cell 1] true false fun _ => true, .unshuffled)).toOption.getD (create 1 none false)

theorem reachable_oneCell : oneCell.Reachable banSetup := by
  have hrun : oneCellRun = .ok oneCell := rfl
  obtain ⟨s₀, hinit, hcell⟩ := Except.bind_eq_ok_iff.mp hrun
  exact ⟨_, _, _, _, s₀, hinit, .step _ .refl trivial hcell⟩

theorem step_bannedCell :
    oneCell.step banSetup (.ban [.cell 1] true false fun _ => true, .unshuffled) = .ok bannedCell :=
  rfl

theorem unique_bannedCell : (bannedCell.uvnKeys banSetup exampleIds).Unique := by
  refine UvnKeys.unique_of_entries [1] (fun c hc => ?_) (by decide +kernel) (by decide +kernel)
  match c, hc with
  | 0, _ => exact ⟨rfl, rfl, rfl⟩
  | c + 2, _ => exact ⟨rfl, rfl, rfl⟩

/-- The cell after it is unbanned. -/
def unbannedCell : RegistryState :=
  (bannedCell.step banSetup (.ban [.cell 1] false false fun _ => true, .unshuffled)).toOption.getD (create 1 none false)

/-- A registry with a cell and a banned particle. -/
def bannedParticle : RegistryState :=
  (exampleState.step packageSetup (.ban [.particle 1] true false fun _ => true, .unshuffled)).toOption.getD
    (create 1 none false)

theorem unique_bannedParticle : (bannedParticle.uvnKeys packageSetup exampleIds).Unique := by
  refine UvnKeys.unique_of_entries [1] (fun c hc => ?_) (by decide +kernel) (by decide +kernel)
  match c, hc with
  | 0, _ => exact ⟨rfl, rfl, rfl⟩
  | c + 2, _ => exact ⟨rfl, rfl, rfl⟩

end RegistryState

end Uno
