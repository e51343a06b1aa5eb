import Uno.Registry.Reachable
import Uno.Registry.AgentKeys
import Uno.Vpn.AgentConfig
import Mathlib.Data.String.Basic

/-!
# The package of a cell

The package of a cell holds the registry's tables, and the keys of the cell (`cellPackage`). Its agent computes the
configurations of the cell from them. In every reachable state they are those that the registry computes: of the root
VPN and the backbone for the cell, and of its particles VPN for the root (`agent_configurations_eq`). For a particle
they are not, since the package has no private keys of particles (`particle_configurations_iff`).
-/

namespace Uno

open PairedValuesMap

/-! ### The keys of a registry, as they are exported -/

/-- The ids of the rows of keys. -/
structure KeyRowIds where
  asymm : AsymmKeyId → ℕ
  symm : SymmKeyId → ℕ
  asymm_injective : Function.Injective asymm
  symm_injective : Function.Injective symm

/-- The `UNIQUE` columns of the key tables. -/
structure UvnKeys.Unique (k : UvnKeys) : Prop where
  /-- `UNIQUE (public, dropped)` and `UNIQUE (private, dropped)`. -/
  asymm : ∀ i j key key', k.asymmAt i = some key → k.asymmAt j = some key' →
    key.publicKey = key'.publicKey ∨ key.privateKey = key'.privateKey → i = j
  /-- `UNIQUE (value, dropped)`. -/
  symm : ∀ i j key key', k.symmAt i = some key → k.symmAt j = some key' → key.value = key'.value → i = j

/-! ### Listing the keys -/

namespace UvnKeys

variable (k : UvnKeys) (cells : List ℕ)

/-- The active key pairs, with those of the particles VPNs of some cells. -/
def asymmEntries : List (AsymmKeyId × AsymmKey) :=
  let central (vpn : Vpn) (m : CentralizedVpnKeyMaterial) : List (AsymmKeyId × AsymmKey) :=
    m.rootKey.toList.map (.root vpn, ·) ++ m.peerKeys.entries.map fun e => (.peer vpn e.1, e.2)
  central .root k.root ++ cells.flatMap (fun c => central (.particles c) (k.particles c)) ++
    k.backbone.pairKeys.entries.flatMap fun e => [(.pair .backbone e.1 0, e.2.1), (.pair .backbone e.1 1, e.2.2)]

/-- The active preshared keys. -/
def symmEntries : List (SymmKeyId × SymmKey) :=
  k.root.presharedKeys.entries.map (fun e => (⟨.root, e.1⟩, e.2)) ++
    cells.flatMap (fun c => (k.particles c).presharedKeys.entries.map fun e => (⟨.particles c, e.1⟩, e.2)) ++
    k.backbone.presharedKeys.entries.map fun e => (⟨.backbone, e.1⟩, e.2)

/-- The other particles VPNs have no keys. -/
def NoneElse : Prop := ∀ c ∉ cells, (k.particles c).rootKey = none ∧ (k.particles c).peerKeys.entries = [] ∧
  (k.particles c).presharedKeys.entries = []

variable {k cells}

theorem mem_asymmEntries (h : k.NoneElse cells) {i : AsymmKeyId} {key : AsymmKey} (hat : k.asymmAt i = some key) :
    (i, key) ∈ k.asymmEntries cells := by
  have hcell : ∀ {c : ℕ}, (k.particles c).rootKey = some key ∨ (∃ p, (p, key) ∈ (k.particles c).peerKeys.entries) →
      c ∈ cells := by
    intro c hkey
    by_contra hc
    obtain ⟨hroot, hpeers, -⟩ := h c hc
    rcases hkey with hkey | ⟨p, hp⟩
    · rw [hroot] at hkey
      cases hkey
    · rw [hpeers] at hp
      cases hp
  simp only [asymmEntries, List.mem_append, List.mem_flatMap, List.mem_map, Option.mem_toList]
  unfold asymmAt at hat
  split at hat
  · exact .inl (.inl (.inl ⟨key, hat, rfl⟩))
  · exact .inl (.inr ⟨_, hcell (.inl hat), .inl ⟨key, hat, rfl⟩⟩)
  · exact .inl (.inl (.inr ⟨(_, key), Dict.get?_eq_some_iff.mp hat, rfl⟩))
  · have hp := Dict.get?_eq_some_iff.mp hat
    exact .inl (.inr ⟨_, hcell (.inr ⟨_, hp⟩), .inr ⟨(_, key), hp, rfl⟩⟩)
  · obtain ⟨keys, hkeys, rfl⟩ := Option.map_eq_some_iff.mp hat
    exact .inr ⟨(_, keys), Dict.get?_eq_some_iff.mp hkeys, List.mem_cons_self⟩
  · obtain ⟨keys, hkeys, rfl⟩ := Option.map_eq_some_iff.mp hat
    exact .inr ⟨(_, keys), Dict.get?_eq_some_iff.mp hkeys, List.mem_cons_of_mem _ List.mem_cons_self⟩
  · cases hat

theorem mem_symmEntries (h : k.NoneElse cells) {i : SymmKeyId} {key : SymmKey} (hat : k.symmAt i = some key) :
    (i, key) ∈ k.symmEntries cells := by
  simp only [symmEntries, List.mem_append, List.mem_flatMap, List.mem_map]
  unfold symmAt at hat
  split at hat
  · exact .inl (.inl ⟨(_, key), Dict.get?_eq_some_iff.mp hat, rfl⟩)
  · next c pair =>
    have hpair := Dict.get?_eq_some_iff.mp hat
    have hc : c ∈ cells := by
      by_contra hc
      rw [(h c hc).2.2] at hpair
      cases hpair
    exact .inl (.inr ⟨c, hc, (_, key), hpair, rfl⟩)
  · exact .inr ⟨(_, key), Dict.get?_eq_some_iff.mp hat, rfl⟩

variable (cells) in
theorem unique_of_entries (h : k.NoneElse cells)
    (hasymm : ∀ x ∈ k.asymmEntries cells, ∀ y ∈ k.asymmEntries cells,
      x.2.publicKey = y.2.publicKey ∨ x.2.privateKey = y.2.privateKey → x.1 = y.1)
    (hsymm : ∀ x ∈ k.symmEntries cells, ∀ y ∈ k.symmEntries cells, x.2.value = y.2.value → x.1 = y.1) : k.Unique :=
  ⟨fun _ _ _ _ hi hj => hasymm _ (mem_asymmEntries h hi) _ (mem_asymmEntries h hj),
    fun _ _ _ _ hi hj => hsymm _ (mem_symmEntries h hi) _ (mem_symmEntries h hj)⟩

end UvnKeys

/-- The settings with other allowed addresses on the backbone. -/
def Setup.withAllowedIps (setup : Setup) (allowedIps : List String) : Setup :=
  { setup with settings := { setup.settings with
    backboneVpn := { setup.settings.backboneVpn with allowedIps := allowedIps } } }

/-- The database of a package: the rows of the tables of the registry, and its keys. -/
structure CellPackage where
  uvn : Uvn
  settings : UvnSettings
  deployment : Option P2pLinksMap
  keys : PackageKeys

namespace RegistryState

section package
variable (setup : Setup) (ids : KeyRowIds) (t : RegistryState)

def uvnKeys : UvnKeys where
  toActiveKeys := t.activeKeys setup
  asymmId := ids.asymm
  symmId := ids.symm

/-- The settings that are saved with the UVN: those that building the backbone left. -/
def savedSettings : UvnSettings :=
  { setup.settings with
    backboneVpn := ((t.backboneVpn setup).map P2pVpnConfig.settings).getD setup.settings.backboneVpn }

/-- `generate_cell_database`. -/
def cellPackage (c : CellRow) : Result CellPackage := do
  let keys ← (t.uvnKeys setup ids).generateCellDatabase c.id (c.enableParticlesVpn setup.settings)
  .ok ⟨t.uvn, t.savedSettings setup, t.deployment, keys⟩

end package

end RegistryState

/-! ### The configurations of an agent -/

namespace CellPackage

variable (package : CellPackage)

def rootVpn : Option CentralizedVpnConfig :=
  rootVpnConfig package.settings package.uvn (package.keys.keymat .root package.uvn.activeIds)

def particlesVpn (c : CellRow) : Option CentralizedVpnConfig :=
  Uno.particlesVpn package.settings package.uvn c
    (package.keys.keymat (.particles c.id) package.uvn.activeParticleIds)

def backboneVpn : Option P2pVpnConfig :=
  package.deployment.map (Uno.backboneVpn package.settings.backboneVpn package.uvn.backboneCells)

end CellPackage

theorem CentralizedVpnConfig.Buildable.of_built {v : CentralizedVpnConfig} {keymat : CentralizedVpnKeyMaterial}
    (hassigned : v.Assigned) (hbuilt : ∃ r, build { v with keymat := keymat } = .ok r) (hkeys : v.KeysComplete) :
    v.Buildable := by
  have hassigned' : Assigned { v with keymat := keymat } := ⟨hassigned.1, hassigned.2⟩
  obtain ⟨hfields, -, -, hsubnet⟩ := (exists_build_iff hassigned').mp hbuilt
  exact ⟨hfields, hkeys.rootKey, hkeys.peers, hsubnet⟩

/-! ### The tables are as an export needs them -/

namespace Keymat

variable {m : Keymat} {pubkey : String → String} {vpn : Vpn} {ids : List ℕ}

theorem asymmKey_dropped (htidy : m.Tidy) (hsettled : m.Settled) {k : KeyPlace} {o : KeyObject}
    (h : m.keys.get? k = some o) (i : AsymmKeyId) : (m.asymmKey pubkey i o).dropped = false := by
  have hrow := hsettled.after_iff.mp ((htidy.keys k o).mp h)
  show (m.table.rows.any fun r => r.id = o.id && r.flag) = false
  rw [List.any_eq_false]
  intro r hr hflag
  rw [Bool.and_eq_true, decide_eq_true_eq] at hflag
  obtain rfl := m.table.eq_of_id hr hrow hflag.1
  exact Bool.false_ne_true hflag.2

theorem symmKey_dropped (htidy : m.Tidy) (hsettled : m.Settled) {pair : ℕ × ℕ} {keys : List KeyObject}
    (h : m.presharedKeys.content.get? pair = some keys) :
    (m.symmKey vpn pair keys).dropped = false ∧ (m.symmKey vpn pair keys).value ≠ none := by
  obtain ⟨o, rfl, hafter⟩ := (htidy.psks.content pair keys).mp h
  have hrow := hsettled.psks.after_iff.mp hafter
  refine ⟨?_, nofun⟩
  show (m.presharedKeys.table.rows.any fun r => some r.id = some o.id && r.flag) = false
  rw [List.any_eq_false]
  intro r hr hflag
  rw [Bool.and_eq_true, decide_eq_true_eq] at hflag
  obtain rfl := m.presharedKeys.table.eq_of_id hr hrow (Option.some.inj hflag.1)
  exact Bool.false_ne_true hflag.2

theorem of_material_rootKey (htidy : m.Tidy) (hsettled : m.Settled) {key : AsymmKey}
    (h : (m.material pubkey vpn ids).rootKey = some key) :
    key.keyId = .root vpn ∧ key.dropped = false ∧ key.privateKey ≠ none := by
  obtain ⟨o, ho, rfl⟩ := Option.map_eq_some_iff.mp h
  rw [← get?_keys_root] at ho
  exact ⟨rfl, asymmKey_dropped htidy hsettled ho _, nofun⟩

theorem of_material_peerKeys (htidy : m.Tidy) (hsettled : m.Settled) {p : ℕ} {key : AsymmKey}
    (h : (m.material pubkey vpn ids).peerKeys.get? p = some key) :
    key.keyId = .peer vpn p ∧ key.dropped = false ∧ key.privateKey ≠ none := by
  have hget := (Dict.get?_mapEntries m.peerKeys (fun p => m.asymmKey pubkey (.peer vpn p)) p).symm.trans h
  obtain ⟨o, ho, rfl⟩ := Option.map_eq_some_iff.mp hget
  rw [← get?_keys_peer] at ho
  exact ⟨rfl, asymmKey_dropped htidy hsettled ho _, nofun⟩

theorem of_material_presharedKeys (htidy : m.Tidy) (hsettled : m.Settled) {pair : ℕ × ℕ} {key : SymmKey}
    (h : (m.material pubkey vpn ids).presharedKeys.get? pair = some key) :
    key.keyId = ⟨vpn, pair⟩ ∧ key.dropped = false ∧ key.value ≠ none := by
  have hget := (Dict.get?_mapEntries m.presharedKeys.content (m.symmKey vpn) pair).symm.trans h
  obtain ⟨keys, hkeys, rfl⟩ := Option.map_eq_some_iff.mp hget
  obtain ⟨hdropped, hvalue⟩ := @symmKey_dropped _ vpn htidy hsettled _ _ hkeys
  exact ⟨rfl, hdropped, hvalue⟩

end Keymat

namespace RegistryState

variable {setup : Setup} {ids : KeyRowIds} {t : RegistryState} {c : CellRow} {package : CellPackage}

theorem Complete.root_settled (h : t.Complete setup) : t.keys.rootVpn.Tidy ∧ t.keys.rootVpn.Settled :=
  ⟨h.root.1, h.rootLoaded ▸ Keymat.settled_load _⟩

theorem Complete.particles_settled (h : t.Complete setup) (c : ℕ) :
    (t.keys.particlesVpns c).Tidy ∧ (t.keys.particlesVpns c).Settled :=
  ⟨(h.particles c).1, h.particlesLoaded c ▸ Keymat.settled_load _⟩

theorem LinkKeys.lt_of_hasPair (h : t.LinkKeys) {pair : ℕ × ℕ} (hpair : t.keys.backboneVpn.HasPair pair) :
    pair.1 < pair.2 := by
  unfold LinkKeys at h
  cases hdeployment : t.deployment with
  | none =>
    rw [hdeployment] at h
    exact absurd hpair (h pair)
  | some d =>
    simp only [hdeployment] at h
    obtain ⟨hself, hon⟩ := h
    obtain ⟨a, b, hlists, rfl⟩ := hon pair hpair
    have hne : a ≠ b := by
      rintro rfl
      exact hself a hlists
    rcases Nat.lt_or_gt_of_ne hne with hlt | hgt
    · rw [pairKey, if_neg (by omega)]
      exact hlt
    · rw [pairKey, if_pos hgt]
      exact hgt

theorem Complete.valid_uvnKeys (h : t.Complete setup) (hlinks : t.LinkKeys) (hunique : (t.uvnKeys setup ids).Unique) :
    (t.uvnKeys setup ids).Valid := by
  refine ⟨fun i key hkey => ?_, fun i key hkey => ?_, hunique.asymm, hunique.symm, ids.asymm_injective,
    ids.symm_injective, fun pair hpair => ?_, fun pair hpair => ?_, fun _ => ?_⟩
  · cases i with
    | root v =>
      cases v with
      | root => exact Keymat.of_material_rootKey h.root_settled.1 h.root_settled.2 hkey
      | particles c => exact Keymat.of_material_rootKey (h.particles_settled c).1 (h.particles_settled c).2 hkey
      | backbone => cases hkey
    | peer v p =>
      cases v with
      | root => exact Keymat.of_material_peerKeys h.root_settled.1 h.root_settled.2 hkey
      | particles c => exact Keymat.of_material_peerKeys (h.particles_settled c).1 (h.particles_settled c).2 hkey
      | backbone => cases hkey
    | pair v pair n =>
      cases v with
      | root => cases hkey
      | particles c => cases hkey
      | backbone =>
        match n, hkey with
        | 0, hkey =>
          obtain ⟨keys, hkeys, rfl⟩ := Option.map_eq_some_iff.mp hkey
          obtain ⟨keys, -, rfl⟩ := Option.map_eq_some_iff.mp ((Dict.get?_mapEntries _ _ _).symm.trans hkeys)
          exact ⟨rfl, rfl, nofun⟩
        | 1, hkey =>
          obtain ⟨keys, hkeys, rfl⟩ := Option.map_eq_some_iff.mp hkey
          obtain ⟨keys, -, rfl⟩ := Option.map_eq_some_iff.mp ((Dict.get?_mapEntries _ _ _).symm.trans hkeys)
          exact ⟨rfl, rfl, nofun⟩
        | n + 2, hkey => cases hkey
  · obtain ⟨v, pair⟩ := i
    cases v with
    | root => exact Keymat.of_material_presharedKeys h.root_settled.1 h.root_settled.2 hkey
    | particles c => exact Keymat.of_material_presharedKeys (h.particles_settled c).1 (h.particles_settled c).2 hkey
    | backbone =>
      obtain ⟨psk, -, rfl⟩ := Option.map_eq_some_iff.mp ((Dict.get?_mapEntries _ _ _).symm.trans hkey)
      exact ⟨rfl, rfl, nofun⟩
  · refine hlinks.lt_of_hasPair (.inl ?_)
    obtain ⟨e, he, rfl⟩ := List.mem_map.mp hpair
    obtain ⟨e', he', rfl⟩ := List.mem_map.mp he
    exact List.mem_map_of_mem he'
  · refine hlinks.lt_of_hasPair (.inr ?_)
    obtain ⟨e, he, rfl⟩ := List.mem_map.mp hpair
    obtain ⟨e', he', rfl⟩ := List.mem_map.mp he
    exact List.mem_map_of_mem he'
  · exact t.uvn.particleIds_nodup.sublist (List.filter_sublist.map _)

end RegistryState

/-! ### A package is made -/

namespace UvnKeys

variable {k : UvnKeys} {cell : ℕ} {enableParticlesVpn : Bool}

theorem hasKeysOf_of (hown : ∀ i, k.OwnKey cell enableParticlesVpn i → k.asymmAt i ≠ none)
    (hpsk : ∀ i, k.OwnPsk cell enableParticlesVpn i → k.symmAt i ≠ none)
    (hpeer : ∀ i, k.PeerKey cell enableParticlesVpn i → k.asymmAt i ≠ none) : k.HasKeysOf cell enableParticlesVpn := by
  refine ⟨fun place hplace => ?_, fun i hi => hpeer i (mem_publicPlaces.mp hi)⟩
  cases place with
  | asymm i =>
    rw [materialAt, ne_eq, Option.map_eq_none_iff]
    exact hown i (mem_privatePlaces_asymm.mp (List.mem_filterMap.mpr ⟨_, hplace, rfl⟩))
  | symm i =>
    rw [materialAt, ne_eq, Option.map_eq_none_iff]
    exact hpsk i (mem_privatePlaces_symm.mp (List.mem_filterMap.mpr ⟨_, hplace, rfl⟩))

theorem asymmAt_half_ne_none {pair : ℕ × ℕ} (hpair : pair ∈ k.pairsOf cell) :
    k.asymmAt (ownHalf cell pair) ≠ none ∧ k.asymmAt (otherHalf cell pair) ≠ none := by
  obtain ⟨⟨keys, hkeys⟩, -⟩ := mem_pairsOf.mp hpair
  have hfst : k.asymmAt (.pair .backbone pair 0) = some keys.1 := by rw [asymmAt, hkeys, Option.map_some]
  have hsnd : k.asymmAt (.pair .backbone pair 1) = some keys.2 := by rw [asymmAt, hkeys, Option.map_some]
  rw [ownHalf, otherHalf]
  split_ifs
  · rw [hfst, hsnd]
    exact ⟨Option.some_ne_none _, Option.some_ne_none _⟩
  · rw [hfst, hsnd]
    exact ⟨Option.some_ne_none _, Option.some_ne_none _⟩

end UvnKeys

namespace RegistryState

variable {setup : Setup} {ids : KeyRowIds} {t : RegistryState} {c : CellRow} {package : CellPackage}

theorem mem_allCellIds {u : Uvn} (hc : c ∈ u.cells) : c.id ∈ u.allCellIds :=
  Uvn.mem_allCellIds_of_active (List.mem_map_of_mem hc)

theorem mem_particlesCellIds {u : Uvn} (hc : c ∈ u.cells) (henabled : c.enableParticlesVpn setup.settings = true) :
    c.id ∈ u.particlesCellIds setup.settings :=
  List.mem_map_of_mem (List.mem_filter.mpr ⟨hc, henabled⟩)

theorem Complete.hasKeysOf (h : t.Complete setup) (henabled : t.uvn.enableRootVpn) (hc : c ∈ t.uvn.cells) :
    (t.uvnKeys setup ids).HasKeysOf c.id (c.enableParticlesVpn setup.settings) := by
  have hroot := h.kept.root henabled
  obtain ⟨key, psk, hkey, hpsk⟩ := hroot.exists_holds setup.pubkey .root (mem_allCellIds hc) t.uvn.activeIds
  have hparticles : ∀ (henabled : c.enableParticlesVpn setup.settings = true),
      (t.keys.particlesVpns c.id).Has (Keymat.Wanted t.uvn.activeParticleIds) := fun henabled =>
    h.kept.particles c.id (mem_particlesCellIds hc henabled)
  refine UvnKeys.hasKeysOf_of (fun i hown => ?_) (fun i hown => ?_) fun i hpeer => ?_
  · rcases hown with rfl | ⟨pair, hpair, rfl⟩ | ⟨henabled, rfl⟩
    · show (t.uvnKeys setup ids).root.peerKeys.get? c.id ≠ none
      exact fun hnone => Option.some_ne_none key (hkey.symm.trans hnone)
    · exact (UvnKeys.asymmAt_half_ne_none hpair).1
    · exact (hparticles henabled).rootKey_ne_none setup.pubkey (.particles c.id) trivial t.uvn.activeParticleIds
  · rcases hown with rfl | ⟨pair, hpair, -, rfl⟩ | ⟨henabled, p, hp, rfl⟩
    · rw [UvnKeys.pairKey_zero] at hpsk
      exact fun hnone => Option.some_ne_none psk (hpsk.symm.trans hnone)
    · obtain ⟨psk, hpsk⟩ := Dict.mem_keys_iff.mp hpair
      exact fun hnone => Option.some_ne_none psk (hpsk.symm.trans hnone)
    · obtain ⟨key, psk, -, hpsk⟩ :=
        (hparticles henabled).exists_holds setup.pubkey (.particles c.id) (p := p) hp t.uvn.activeParticleIds
      rw [UvnKeys.pairKey_zero] at hpsk
      exact fun hnone => Option.some_ne_none psk (hpsk.symm.trans hnone)
  · rcases hpeer with rfl | ⟨pair, hpair, rfl⟩ | ⟨henabled, p, hp, rfl⟩
    · exact hroot.rootKey_ne_none setup.pubkey .root trivial t.uvn.activeIds
    · exact (UvnKeys.asymmAt_half_ne_none hpair).2
    · obtain ⟨key, psk, hkey, -⟩ :=
        (hparticles henabled).exists_holds setup.pubkey (.particles c.id) (p := p) hp t.uvn.activeParticleIds
      exact fun hnone => Option.some_ne_none key (hkey.symm.trans hnone)

theorem Complete.of_cellPackage (h : t.Complete setup) (hvalid : (t.uvnKeys setup ids).Valid) (hc : c ∈ t.uvn.cells)
    (hpackage : t.cellPackage setup ids c = .ok package) :
    package = ⟨t.uvn, t.savedSettings setup, t.deployment,
      (t.uvnKeys setup ids).packageRows c.id (c.enableParticlesVpn setup.settings)⟩ := by
  obtain ⟨keys, hkeys, heq⟩ := Except.bind_eq_ok_iff.mp hpackage
  obtain rfl := Except.ok.inj heq
  obtain ⟨-, rfl⟩ := hvalid.of_generateCellDatabase (h.cellIds_pos c (Uvn.mem_cells.mp hc).1) hkeys
  rfl

theorem Complete.exists_cellPackage (h : t.Complete setup) (hvalid : (t.uvnKeys setup ids).Valid)
    (henabled : t.uvn.enableRootVpn) (hc : c ∈ t.uvn.cells) : ∃ package, t.cellPackage setup ids c = .ok package := by
  have hkeys := hvalid.generateCellDatabase_eq (h.cellIds_pos c (Uvn.mem_cells.mp hc).1)
    (c.enableParticlesVpn setup.settings)
  rw [if_pos (h.hasKeysOf henabled hc)] at hkeys
  exact ⟨_, by rw [cellPackage, hkeys, Except.ok_bind]⟩

/-! ### The agent's configurations -/

theorem root_configuration_eq (hvalid : (t.uvnKeys setup ids).Valid) (hc : 0 < c.id)
    {keys : PackageKeys} (hkeys : keys = (t.uvnKeys setup ids).packageRows c.id (c.enableParticlesVpn setup.settings)) :
    (rootVpnConfig (t.savedSettings setup) t.uvn (keys.keymat .root t.uvn.activeIds)).map (fun v => v.peerConfig c.id) =
      (t.rootVpn setup).map fun v => v.peerConfig c.id := by
  subst hkeys
  rw [rootVpn, rootVpnConfig, rootVpnConfig]
  split_ifs with henabled
  · refine congrArg some (CentralizedVpnConfig.peerConfig_congr (v := ⟨_, _, _, _, _⟩) hc ?_ ?_ ?_)
    · exact (hvalid.get?_peerKeys .root c.id).trans (UvnKeys.visibleKey_own (.inl rfl))
    · refine (hvalid.get?_presharedKeys .root _).trans (if_pos (.inl ?_))
      rw [UvnKeys.pairKey_zero]
    · have hroot := @UvnKeys.Valid.rootKey_eq _ c.id (c.enableParticlesVpn setup.settings) hvalid .root
      rw [hvalid.visibleKey_peer (.inl rfl)] at hroot
      have hpublic := congrArg (Option.map AsymmKey.publicKey) hroot
      rw [Option.map_map] at hpublic
      exact hpublic
  · rfl

theorem particles_configuration_eq (hvalid : (t.uvnKeys setup ids).Valid) (hpos : ∀ p ∈ t.uvn.particleRows, 0 < p.id)
    {keys : PackageKeys} (hkeys : keys = (t.uvnKeys setup ids).packageRows c.id (c.enableParticlesVpn setup.settings)) :
    (Uno.particlesVpn (t.savedSettings setup) t.uvn c (keys.keymat (.particles c.id) t.uvn.activeParticleIds)).map
      CentralizedVpnConfig.rootConfig = (t.particlesVpn setup c).map CentralizedVpnConfig.rootConfig := by
  subst hkeys
  rw [particlesVpn, Uno.particlesVpn, Uno.particlesVpn, show c.enableParticlesVpn (t.savedSettings setup) =
    c.enableParticlesVpn setup.settings from rfl]
  split_ifs with henabled
  · have hmem : ∀ p ∈ (t.uvn.particles.map ParticleRow.id).insertionSort (· ≤ ·), p ∈ t.uvn.activeParticleIds :=
      fun p hp => (List.mem_insertionSort _).mp hp
    refine congrArg some (CentralizedVpnConfig.rootConfig_congr (v := ⟨_, _, _, _, _⟩) ?_ (fun p hp => ?_)
      (fun p hp => ?_) fun p hp => ?_)
    · exact (hvalid.rootKey_eq (.particles c.id)).trans (UvnKeys.visibleKey_own (.inr (.inr ⟨henabled, rfl⟩)))
    · obtain ⟨q, hq, rfl⟩ := List.mem_map.mp (hmem p hp)
      exact hpos q (List.mem_of_mem_filter hq)
    · have hkey := @UvnKeys.Valid.get?_peerKeys _ c.id (c.enableParticlesVpn setup.settings) hvalid (.particles c.id) p
      rw [hvalid.visibleKey_peer (.inr (.inr ⟨henabled, p, hmem p hp, rfl⟩))] at hkey
      have hpublic := congrArg (Option.map AsymmKey.publicKey) hkey
      rw [Option.map_map] at hpublic
      exact hpublic
    · refine (hvalid.get?_presharedKeys (.particles c.id) _).trans (if_pos (.inr (.inr ⟨henabled, p, hmem p hp, ?_⟩)))
      rw [UvnKeys.pairKey_zero]
  · rfl

/-! ### Links -/

/-- Building the backbone again with the settings it left changes nothing. -/
theorem backboneVpn_settings (settings : VpnSettings) (cells : Dict ℕ Cell) (d : P2pLinksMap) :
    Uno.backboneVpn (Uno.backboneVpn settings cells d).settings cells d = Uno.backboneVpn settings cells d := by
  have hips : ∀ ips lans : List String, (((ips ++ lans).dedup.insertionSort (· ≤ ·)) ++ lans).dedup.insertionSort (· ≤ ·) =
      (ips ++ lans).dedup.insertionSort (· ≤ ·) := by
    intro ips lans
    refine List.Perm.eq_of_sortedLE List.sortedLE_insertionSort List.sortedLE_insertionSort ?_
    refine (List.perm_insertionSort _ _).trans (.trans ?_ (List.perm_insertionSort _ _).symm)
    refine (List.perm_ext_iff_of_nodup (List.nodup_dedup _) (List.nodup_dedup _)).mpr fun ip => ?_
    rw [List.mem_dedup, List.mem_append, List.mem_insertionSort, List.mem_dedup, List.mem_append]
    tauto
  unfold Uno.backboneVpn
  simp only [hips]

theorem pick_toKey (pair : ℕ × ℕ) (a b e : ℕ) (keys : WireGuardKeyPair × WireGuardKeyPair) :
    (pick a b e (keys.1.toKey pair 0, keys.2.toKey pair 1)).toKeyPair = pick a b e keys ∧
      (pick a b e (keys.1.toKey pair 0, keys.2.toKey pair 1)).publicKey = (pick a b e keys).publicKey := by
  rw [pick, pick]
  split_ifs
  · exact ⟨rfl, rfl⟩
  · exact ⟨rfl, rfl⟩

theorem sameFor_of_holds (hvalid : (t.uvnKeys setup ids).Valid) {a b : ℕ} (hne : a ≠ b)
    {keys : WireGuardKeyPair × WireGuardKeyPair} {psk : String} (hholds : t.keys.backboneVpn.Holds a b keys psk)
    (enableParticlesVpn : Bool) :
    P2pVpnConfig.SameFor t.keys.backboneVpn
      ((t.uvnKeys setup ids).packageRows a enableParticlesVpn).backboneKeymat a b := by
  obtain ⟨hkeys, hpsk⟩ := hholds
  have hkeys' : (t.uvnKeys setup ids).backbone.pairKeys.get? (pairKey a b) =
      some (keys.1.toKey (pairKey a b) 0, keys.2.toKey (pairKey a b) 1) := by
    refine (Dict.get?_mapEntries _ _ _).trans ?_
    rw [hkeys]
    rfl
  have hpsk' : (t.uvnKeys setup ids).backbone.presharedKeys.get? (pairKey a b) =
      some ⟨⟨.backbone, pairKey a b⟩, some psk, false⟩ := by
    refine (Dict.get?_mapEntries _ _ _).trans ?_
    rw [hpsk]
    rfl
  obtain ⟨keys', hholds', hown, hother⟩ := hvalid.holds_backboneKeymat hne hkeys' hpsk'
  refine ⟨keys, keys', psk, ⟨hkeys, hpsk⟩, hholds', ?_, ?_⟩
  · rw [hown, (pick_toKey _ _ _ _ _).1]
  · rw [hother, (pick_toKey _ _ _ _ _).2]

theorem Complete.link_configurations_eq (h : t.Complete setup) (hlinks : t.LinkKeys)
    (hvalid : (t.uvnKeys setup ids).Valid) (hc : c ∈ t.uvn.cells) {vpn : P2pVpnConfig}
    (hvpn : t.backboneVpn setup = some vpn) (enableParticlesVpn : Bool) :
    vpn.peerConfig setup.linkSource c.id t.keys.backboneVpn =
      vpn.readonlyPeerConfig c.id ((t.uvnKeys setup ids).packageRows c.id enableParticlesVpn).backboneKeymat >>=
        fun cfgs => .ok (cfgs, t.keys.backboneVpn) := by
  obtain ⟨d, hd, rfl⟩ := Option.map_eq_some_iff.mp hvpn
  unfold LinkKeys at hlinks
  simp only [hd] at hlinks
  have hmem : c.id ∈ (Uno.backboneVpn setup.settings.backboneVpn t.uvn.backboneCells d).peerIds := by
    refine (List.mem_insertionSort _).mpr (List.mem_map.mpr ⟨(c.id, c.toCell), ?_, rfl⟩)
    exact List.mem_map_of_mem (f := fun c : CellRow => (c.id, c.toCell)) hc
  refine P2pVpnConfig.readonlyPeerConfig_eq fun p b hp hb => ?_
  obtain ⟨keys, psk, hholds⟩ := h.kept.links _ hvpn c.id hmem p b hp hb
  refine sameFor_of_holds hvalid ?_ hholds enableParticlesVpn
  rintro rfl
  exact hlinks.1 c.id ⟨p, hp, hb⟩

/-! ### Refinement -/

theorem Complete.withAllowedIps (h : t.Complete setup) (allowedIps : List String) :
    t.Complete (setup.withAllowedIps allowedIps) := by
  obtain ⟨⟨hpending, hroot, hparticles, hsettled⟩, hkept⟩ := h
  have hdeployed : t.needsRedeployment = false →
      ∃ vpn, t.backboneVpn (setup.withAllowedIps allowedIps) = some vpn ∧ vpn.AllLinkable := by
    intro hsettled
    obtain ⟨vpn, hvpn, hlinkable⟩ := hpending.deployed hsettled
    obtain ⟨d, hd, rfl⟩ := Option.map_eq_some_iff.mp hvpn
    refine ⟨_, by rw [backboneVpn, hd, Option.map_some], fun a p b hp hb => ?_⟩
    obtain ⟨linkB, endpoint, endpointB, hlink⟩ := hlinkable a p b hp hb
    exact ⟨linkB, endpoint, endpointB, ⟨hlink.entry, hlink.endpoint, hlink.endpointB⟩⟩
  refine ⟨⟨⟨hpending.root, hpending.particles, hpending.gone, hpending.cellIds_pos, hpending.particleIds_pos,
    hpending.banned, hdeployed⟩, hroot, hparticles, hsettled⟩, hkept.root, hkept.particles, fun vpn hvpn a ha p b hp hb => ?_⟩
  obtain ⟨d, hd, rfl⟩ := Option.map_eq_some_iff.mp hvpn
  exact hkept.links (Uno.backboneVpn setup.settings.backboneVpn t.uvn.backboneCells d)
    (by rw [backboneVpn, hd, Option.map_some]) a ha p b hp hb

/-- A reachable state is the result of `generate_artifacts`. -/
theorem Reachable.exists_generate (h : t.Reachable setup) :
    ∃ (s : RegistryState) (o : Orders), s.generate setup o = .ok t := by
  obtain ⟨owner, address, enableRootVpn, o, s₀, hinit, hrun⟩ := h
  cases hrun with
  | refl => exact ⟨_, o, hinit⟩
  | step a _ _ hstep =>
    obtain ⟨s₁, -, hgenerate⟩ := Except.bind_eq_ok_iff.mp hstep
    exact ⟨s₁, a.2, hgenerate⟩

theorem exists_build_of_generate {s : RegistryState} {o : Orders} (hok : s.generate setup o = .ok t) (hc : c ∈ t.uvn.cells) :
    ∃ s' : RegistryState, s'.uvn = t.uvn ∧ ∀ v, s'.particlesVpn setup c = some v → ∃ r, v.build = .ok r := by
  obtain ⟨s₁, s₂, keys, -, hassert, hsave, rfl, -⟩ := generate_eq_ok hok
  obtain ⟨_, -, hassert⟩ := Except.bind_eq_ok_iff.mp hassert
  obtain ⟨_, -, hassert⟩ := Except.bind_eq_ok_iff.mp hassert
  obtain ⟨s₃, -, hassert⟩ := Except.bind_eq_ok_iff.mp hassert
  obtain ⟨keys', -, hassert⟩ := Except.bind_eq_ok_iff.mp hassert
  obtain ⟨⟨⟩, hbuild, heq⟩ := Except.bind_eq_ok_iff.mp hassert
  obtain rfl := Except.ok.inj heq
  have huvn : keys.uvn = keys'.uvn := uvn_save hsave
  refine ⟨⟨keys', s₃.deployment, s₃.redeploys⟩, huvn.symm, fun v hv => ?_⟩
  have hmem : c ∈ keys'.uvn.cells := by
    rw [← huvn]
    exact hc
  have hbuild := Fold.forM_eq_ok_iff.mp hbuild c hmem
  rw [hv] at hbuild
  obtain ⟨r, hr, -⟩ := Except.bind_eq_ok_iff.mp hbuild
  exact ⟨r, hr⟩

theorem assigned_particlesVpn (hpos : ∀ p ∈ t.uvn.particleRows, 0 < p.id) {keymat : CentralizedVpnKeyMaterial}
    {v : CentralizedVpnConfig} (hv : Uno.particlesVpn setup.settings t.uvn c keymat = some v) : v.Assigned := by
  unfold Uno.particlesVpn at hv
  split_ifs at hv
  obtain rfl := Option.some.inj hv
  refine ⟨(List.perm_insertionSort _ _).nodup_iff.mpr (t.uvn.particleIds_nodup.sublist (List.filter_sublist.map _)),
    fun p hp => ?_⟩
  obtain ⟨q, hq, rfl⟩ := List.mem_map.mp ((List.mem_insertionSort _).mp hp)
  exact hpos q (List.mem_of_mem_filter hq)

theorem Reachable.buildable_particlesVpn (h : t.Reachable setup) (hc : c ∈ t.uvn.cells) {v : CentralizedVpnConfig}
    (hv : t.particlesVpn setup c = some v) : v.Buildable ∧ v.Assigned := by
  obtain ⟨s, o, hgenerate⟩ := h.exists_generate
  obtain ⟨s', huvn, hbuild⟩ := exists_build_of_generate hgenerate hc
  have hcomplete := h.complete.1
  have hassigned := assigned_particlesVpn hcomplete.particleIds_pos hv
  obtain ⟨hkeys, -⟩ := hcomplete.keysAvailable.particles c hc v hv
  refine ⟨?_, hassigned⟩
  unfold particlesVpn Uno.particlesVpn at hv
  split_ifs at hv with henabled
  obtain rfl := Option.some.inj hv
  exact .of_built hassigned
    (hbuild ⟨_, _, _, _, _⟩ (by rw [particlesVpn, Uno.particlesVpn, if_pos henabled, huvn])) hkeys

/-- What the agent of a cell writes for a particle: the registry's configuration without its private key. -/
theorem particle_configuration_eq (hvalid : (t.uvnKeys setup ids).Valid) {v : CentralizedVpnConfig}
    (hv : t.particlesVpn setup c = some v) {p : ℕ} (hp : p ∈ t.uvn.activeParticleIds) (hpos : 0 < p)
    {cfg : CentralizedVpnConfig.Config} (hcfg : v.peerConfig p = .ok cfg)
    {keys : PackageKeys} (hkeys : keys = (t.uvnKeys setup ids).packageRows c.id (c.enableParticlesVpn setup.settings)) :
    ∃ key, cfg.intf.privkey = some key ∧
      (Uno.particlesVpn (t.savedSettings setup) t.uvn c (keys.keymat (.particles c.id) t.uvn.activeParticleIds)).map
        (fun v => v.peerConfig p) = some (.ok { cfg with intf := { cfg.intf with privkey := none } }) := by
  subst hkeys
  unfold particlesVpn Uno.particlesVpn at hv
  split_ifs at hv with henabled
  obtain rfl := Option.some.inj hv
  obtain ⟨key, psk, name, address, netmask, rootKey, rootAddress, ⟨hkey, hpsk⟩, hname, haddress, hnetmask, hroot, hrootIp,
    rfl⟩ := (CentralizedVpnConfig.peerConfig_eq_ok_iff hpos).mp hcfg
  obtain ⟨-, -, hprivate⟩ := hvalid.asymm (.peer (.particles c.id) p) key hkey
  obtain ⟨private', hprivate⟩ := Option.ne_none_iff_exists'.mp hprivate
  have hkey' := @UvnKeys.Valid.get?_peerKeys _ c.id (c.enableParticlesVpn setup.settings) hvalid (.particles c.id) p
  rw [hvalid.visibleKey_peer (.inr (.inr ⟨henabled, p, hp, rfl⟩)),
    show (t.uvnKeys setup ids).asymmAt (.peer (.particles c.id) p) = some key from hkey, Option.map_some] at hkey'
  have hpsk' := (@UvnKeys.Valid.get?_presharedKeys _ c.id (c.enableParticlesVpn setup.settings) hvalid (.particles c.id)
    (pairKey 0 p)).trans (if_pos (.inr (.inr ⟨henabled, p, hp, by rw [UvnKeys.pairKey_zero]⟩)))
  have hroot' := (hvalid.rootKey_eq (.particles c.id)).trans (UvnKeys.visibleKey_own (.inr (.inr ⟨henabled, rfl⟩)))
  refine ⟨private', hprivate, ?_⟩
  rw [Uno.particlesVpn, show c.enableParticlesVpn (t.savedSettings setup) = true from henabled, if_pos rfl, Option.map_some]
  refine congrArg some ((CentralizedVpnConfig.peerConfig_eq_ok_iff hpos).mpr ?_)
  exact ⟨_, psk, name, address, netmask, rootKey, rootAddress, ⟨hkey', hpsk'.trans hpsk⟩, hname, haddress, hnetmask,
    hroot'.trans hroot, hrootIp, rfl⟩

/-- The configurations of a particle that the agent of a cell and the registry write are the same only where the cell
has no particles VPN: otherwise the agent's has no private key. -/
theorem particle_configurations_iff (h : t.Reachable setup) (hunique : (t.uvnKeys setup ids).Unique) (hc : c ∈ t.uvn.cells)
    (hpackage : t.cellPackage setup ids c = .ok package) {q : ParticleRow} (hq : q ∈ t.uvn.particles) :
    (package.particlesVpn c).map (fun v => v.peerConfig q.id) = (t.particlesVpn setup c).map (fun v => v.peerConfig q.id) ↔
      c.enableParticlesVpn setup.settings = false := by
  obtain ⟨hcomplete, hlinks⟩ := h.complete
  have hvalid : (t.uvnKeys setup ids).Valid := hcomplete.valid_uvnKeys hlinks hunique
  obtain rfl := hcomplete.of_cellPackage hvalid hc hpackage
  constructor
  · intro heq
    by_contra henabled
    rw [Bool.not_eq_false] at henabled
    obtain ⟨v, hv⟩ : ∃ v, t.particlesVpn setup c = some v := ⟨_, by rw [particlesVpn, Uno.particlesVpn, if_pos henabled]⟩
    obtain ⟨hbuildable, hassigned⟩ := h.buildable_particlesVpn hc hv
    have hmem : q.id ∈ v.peerIds := by
      rw [particlesVpn, Uno.particlesVpn, if_pos henabled, Option.some.injEq] at hv
      rw [← hv]
      exact (List.mem_insertionSort _).mpr (List.mem_map_of_mem hq)
    have hpos := hassigned.2 q.id hmem
    obtain ⟨cfg, hcfg⟩ := hbuildable.exists_peerConfig hmem hpos
    obtain ⟨key, hkey, hagent⟩ := particle_configuration_eq hvalid hv (List.mem_map_of_mem hq) hpos hcfg rfl
    rw [hv, Option.map_some, hcfg] at heq
    have hsame := Except.ok.inj (Option.some.inj (hagent.symm.trans heq))
    rw [← hsame] at hkey
    cases hkey
  · intro hdisabled
    have hnone : ∀ keymat, Uno.particlesVpn setup.settings t.uvn c keymat = none := fun keymat => by
      rw [Uno.particlesVpn, hdisabled, if_neg Bool.false_ne_true]
    rw [particlesVpn, hnone]
    show (Uno.particlesVpn (t.savedSettings setup) t.uvn c _).map _ = none
    rw [Option.map_eq_none_iff]
    exact hnone _

/-! ### An example -/

def exampleIds : KeyRowIds :=
  ⟨UvnKeys.asymmNumber, UvnKeys.symmNumber, UvnKeys.asymmNumber_injective, UvnKeys.symmNumber_injective⟩

/-- Each VPN has keys of its own. -/
def packageSetup : Setup := { exampleSetup with source := fun vpn i => s!"key {UvnKeys.vpnNumber vpn} {i}" }

/-- A registry with a cell and a particle. -/
def exampleRun : Result RegistryState := do
  let s ← (create 1 (some "registry.example.com") true).generate packageSetup .unshuffled
  let s ← s.step packageSetup (.addCell none (some "a.example.com") [], .unshuffled)
  s.step packageSetup (.addParticle none, .unshuffled)

def exampleState : RegistryState := exampleRun.toOption.getD (create 1 none false)

theorem reachable_exampleState : exampleState.Reachable packageSetup := by
  have hrun : exampleRun = .ok exampleState := rfl
  obtain ⟨s₀, hinit, hrun⟩ := Except.bind_eq_ok_iff.mp hrun
  obtain ⟨s₁, hcell, hparticle⟩ := Except.bind_eq_ok_iff.mp hrun
  exact ⟨_, _, _, _, s₀, hinit, .step _ (.step _ .refl trivial hcell) trivial hparticle⟩

theorem unique_exampleState : (exampleState.uvnKeys packageSetup exampleIds).Unique := by
  refine UvnKeys.unique_of_entries [1] (fun c hc => ?_) (by decide +kernel) (by decide +kernel)
  match c, hc with
  | 0, _ => exact ⟨rfl, rfl, rfl⟩
  | c + 2, _ => exact ⟨rfl, rfl, rfl⟩

def exampleCell : CellRow := ⟨1, 1, some "a.example.com", [], false⟩

/-- The cell has a particles VPN, and its agent does not write the registry's configuration for the particle. -/
theorem particle_configurations_iff_example : ∃ package,
    exampleState.cellPackage packageSetup exampleIds exampleCell = .ok package ∧
      (package.particlesVpn exampleCell).map (fun v => v.peerConfig 1) ≠
        (exampleState.particlesVpn packageSetup exampleCell).map (fun v => v.peerConfig 1) := by
  have hc : exampleCell ∈ exampleState.uvn.cells := List.mem_singleton.mpr rfl
  have hq : ⟨1, 1, false⟩ ∈ exampleState.uvn.particles := List.mem_singleton.mpr rfl
  refine ⟨_, rfl, fun heq => ?_⟩
  have hdisabled := (particle_configurations_iff reachable_exampleState unique_exampleState hc rfl hq).mp heq
  cases hdisabled

/-- The configuration of the particle as the agent writes it has no private key; the registry's has. -/
theorem particle_configuration_without_key : ∃ package cfg cfg',
    exampleState.Reachable packageSetup ∧ exampleState.uvn.cells = [exampleCell] ∧
      exampleState.uvn.particles = [⟨1, 1, false⟩] ∧
      exampleState.cellPackage packageSetup exampleIds exampleCell = .ok package ∧
      (package.particlesVpn exampleCell).map (fun v => v.peerConfig 1) = some (.ok cfg) ∧
      (exampleState.particlesVpn packageSetup exampleCell).map (fun v => v.peerConfig 1) = some (.ok cfg') ∧
      cfg.intf.privkey = none ∧ cfg'.intf.privkey = some "key 3 2" := by
  exact ⟨_, _, _, reachable_exampleState, rfl, rfl, rfl, rfl, rfl, rfl, rfl⟩

end RegistryState

end Uno
