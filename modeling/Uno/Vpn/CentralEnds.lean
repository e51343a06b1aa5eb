import Uno.Vpn.Central
import Uno.Vpn.Ends

/-!
# The two ends of a centralized VPN

The root VPN and the particles VPNs of a UVN that the cell and UVN checks accept. The configuration of
the root and that of a peer read the same keys and the same address arithmetic, and one of the two ends
holds an endpoint for the other (`centralized_ends_agree`).
-/

namespace Uno

/-- The settings that the VPNs of a UVN read, with those of each cell. -/
structure UvnSettings where
  rootVpn : CentralizedVpnSettings
  particlesVpn : CentralizedVpnSettings
  backboneVpn : VpnSettings
  enableParticlesVpn : Bool
  cellEnableParticlesVpn : ℕ → Bool

/-- A UVN that the checks accept. `prepare_address` rejects an empty address, and ids come from
counters that start at one. -/
structure ValidUvn where
  uvn : Uvn
  valid : uvn.validate = .ok ()
  address_ne : uvn.address ≠ some ""
  cellAddress_ne : ∀ c ∈ uvn.cellRows, c.address ≠ some ""
  cellIds_pos : ∀ c ∈ uvn.cellRows, 0 < c.id
  particleIds_pos : ∀ p ∈ uvn.particleRows, 0 < p.id

/-! ### The centralized VPNs of a UVN -/

namespace Uvn

variable (u : Uvn)

/-- `sorted(uvn.all_cells.values(), key=lambda v: v.id)`. -/
def sortedCells : List CellRow := u.allCells.insertionSort fun c d => c.id ≤ d.id

variable {u}

theorem mem_sortedCells {c : CellRow} : c ∈ u.sortedCells ↔ c ∈ u.cellRows := by
  rw [sortedCells, List.mem_insertionSort, mem_allCells]

theorem sortedCells_ids_nodup : (u.sortedCells.map CellRow.id).Nodup :=
  ((((List.perm_insertionSort _ _).trans u.allCells_perm).map _).nodup_iff).mpr u.cellIds_nodup

end Uvn

/-- `{c.id: c.address for c in cells}`. -/
def addressesOf (cells : List CellRow) (h : (cells.map CellRow.id).Nodup) : Dict ℕ (Option String) :=
  ⟨cells.map fun c => (c.id, c.address), by rw [List.map_map]; exact h⟩

theorem get?_addressesOf {cells : List CellRow} {h : (cells.map CellRow.id).Nodup} {c : CellRow}
    (hc : c ∈ cells) : (addressesOf cells h).get? c.id = some c.address :=
  Dict.get?_eq_some_iff.mpr (List.mem_map_of_mem (f := fun c : CellRow => (c.id, c.address)) hc)

/-- `UvnVpnConfig.root_vpn_config`. -/
def rootVpnConfig (settings : UvnSettings) (u : Uvn) (keymat : CentralizedVpnKeyMaterial) :
    Option CentralizedVpnConfig :=
  if u.enableRootVpn then some {
    settings := settings.rootVpn
    keymat := keymat
    peerIds := u.sortedCells.map CellRow.id
    rootEndpoint := u.address
    peerEndpoints := addressesOf u.sortedCells u.sortedCells_ids_nodup }
  else none

/-- `Cell.enable_particles_vpn`. -/
def CellRow.enableParticlesVpn (settings : UvnSettings) (c : CellRow) : Bool :=
  settings.enableParticlesVpn && settings.cellEnableParticlesVpn c.id && truthy c.address

/-- `UvnVpnConfig.particles_vpn`. -/
def particlesVpn (settings : UvnSettings) (u : Uvn) (c : CellRow) (keymat : CentralizedVpnKeyMaterial) :
    Option CentralizedVpnConfig :=
  if c.enableParticlesVpn settings then some {
    settings := settings.particlesVpn
    keymat := keymat
    peerIds := (u.particles.map ParticleRow.id).insertionSort (· ≤ ·)
    rootEndpoint := c.address
    peerEndpoints := ∅ }
  else none

/-- The configurations of centralized VPNs a registry builds for its UVN. -/
inductive IsCentralizedVpn (settings : UvnSettings) (u : Uvn) : CentralizedVpnConfig → Prop
  | root {keymat : CentralizedVpnKeyMaterial} {v : CentralizedVpnConfig}
    (h : rootVpnConfig settings u keymat = some v) : IsCentralizedVpn settings u v
  | particles {c : CellRow} {keymat : CentralizedVpnKeyMaterial} {v : CentralizedVpnConfig}
    (hc : c ∈ u.cellRows) (h : particlesVpn settings u c keymat = some v) : IsCentralizedVpn settings u v

namespace CentralizedVpnConfig

/-- Endpoints are not empty, and one end of each connection has one. -/
structure Connectable (v : CentralizedVpnConfig) : Prop where
  assigned : v.Assigned
  root_ne : v.rootEndpoint ≠ some ""
  peer_ne : ∀ p ∈ v.peerIds, v.peerEndpoint p ≠ some ""
  reachable : ∀ p ∈ v.peerIds, v.peerEndpoint p = none → v.rootEndpoint ≠ none

/-! ### Agreement -/

/-- The configurations of the root and of the peer `p`, with the entry each has for the other. -/
structure EndsAgree (v : CentralizedVpnConfig) (p : ℕ) (root cfg : Config) (entry rootEntry : Peer) :
    Prop where
  peers_root : root.peers.filter (fun e => e.id = p) = [entry]
  peers_peer : cfg.peers = [rootEntry] ∧ rootEntry.id = 0
  keys_root : ∃ key, v.keymat.rootKey = some key ∧ root.intf.privkey = key.privateKey ∧
    rootEntry.pubkey = key.publicKey
  keys_peer : ∃ key psk, v.keymat.Holds p key psk ∧ cfg.intf.privkey = key.privateKey ∧
    entry.pubkey = key.publicKey ∧ entry.psk = psk.value ∧ rootEntry.psk = psk.value
  address_root : rootEntry.address = root.intf.address ∧ rootEntry.allowed = [root.intf.address]
  address_peer : entry.address = cfg.intf.address ∧ entry.allowed = [cfg.intf.address]
  endpoint_peer : ∀ e, entry.endpoint = some e → v.peerEndpoint p = some e.host ∧
    cfg.intf.endpoint = some e ∧ cfg.intf.port = some e.port
  endpoint_root : ∀ e, rootEntry.endpoint = some e → v.rootEndpoint = some e.host ∧
    root.intf.endpoint = some e ∧ root.intf.port = some e.port
  one_endpoint : Xor (entry.endpoint ≠ none) (rootEntry.endpoint ≠ none)
  keepalive_peer : entry.keepalive = if entry.endpoint = none then none else some v.settings.keepalive
  keepalive_root :
    rootEntry.keepalive = if rootEntry.endpoint = none then none else some v.settings.keepalive

theorem filter_key_eq_singleton {α κ : Type} [DecidableEq κ] {f : α → κ} {l : List α}
    (h : (l.map f).Nodup) {a : α} (ha : a ∈ l) : l.filter (fun b => f b = f a) = [a] := by
  induction l with
  | nil => cases ha
  | cons b rest ih =>
    obtain ⟨hfresh, hnodup⟩ := List.nodup_cons.mp h
    rcases List.mem_cons.mp ha with rfl | ha
    · rw [List.filter_cons_of_pos (by simp), List.filter_eq_nil_iff.mpr]
      intro c hc heq
      exact hfresh (of_decide_eq_true heq ▸ List.mem_map_of_mem hc)
    · rw [List.filter_cons_of_neg, ih hnodup ha]
      rw [decide_eq_true_eq]
      intro heq
      exact hfresh (heq ▸ List.mem_map_of_mem ha)

variable {v : CentralizedVpnConfig}

theorem exists_entry (hids : v.Assigned) {entries : List Peer}
    (h : List.Forall₂ (fun p entry => v.rootPeer p = .ok entry) v.peerIds entries) {p : ℕ}
    (hp : p ∈ v.peerIds) :
    ∃ entry, v.rootPeer p = .ok entry ∧ entries.filter (fun e => e.id = p) = [entry] := by
  have hid : ∀ p ∈ v.peerIds, ∀ entry, v.rootPeer p = .ok entry → entry.id = p := by
    intro p hp entry hentry
    obtain ⟨_, _, _, -, -, rfl⟩ := (rootPeer_eq_ok_iff (hids.2 p hp)).mp hentry
    rfl
  have hids' : entries.map Peer.id = v.peerIds := by
    clear hp
    revert h hid
    generalize v.peerIds = l
    intro h hid
    induction h with
    | nil => rfl
    | @cons q e l entries hq hrest ih =>
      rw [List.map_cons, hid q List.mem_cons_self e hq, ih fun p hp => hid p (List.mem_cons_of_mem _ hp)]
  obtain ⟨entry, hmem, hentry⟩ := exists_of_forall₂ h hp
  refine ⟨entry, hentry, ?_⟩
  rw [← hid p hp entry hentry]
  exact filter_key_eq_singleton (by rw [hids']; exact hids.1) hmem

/-- Whenever the root's configuration is built, it agrees with that of every peer. -/
theorem Connectable.endsAgree (hv : v.Connectable) {root : Config} (hroot : v.rootConfig = .ok root) {p : ℕ}
    (hp : p ∈ v.peerIds) :
    ∃ cfg entry rootEntry, v.peerConfig p = .ok cfg ∧ v.EndsAgree p root cfg entry rootEntry := by
  have hpos := hv.assigned.2 p hp
  obtain ⟨cfg, hcfg⟩ := ((exists_rootConfig_iff hv.assigned).mp ⟨root, hroot⟩).exists_peerConfig hp hpos
  obtain ⟨_, rootKey, rootAddress, _, entries, -, hrootKey, hrootIp, -, hentries, rfl⟩ :=
    rootConfig_eq_ok_iff.mp hroot
  obtain ⟨entry, hentry, hfilter⟩ := exists_entry hv.assigned hentries hp
  have hpeer := hcfg
  obtain ⟨key, psk, _, address, _, rootKey', rootAddress', hholds, -, haddress, -, hrootKey', hrootIp', rfl⟩ :=
    (peerConfig_eq_ok_iff hpos).mp hcfg
  obtain ⟨key', psk', address', hholds', haddress', rfl⟩ := (rootPeer_eq_ok_iff hpos).mp hentry
  -- both sides read the same keys and addresses
  obtain rfl : rootKey' = rootKey := by rw [hrootKey] at hrootKey'; exact (Option.some.inj hrootKey').symm
  obtain rfl : rootAddress' = rootAddress := by rw [hrootIp] at hrootIp'; exact (Except.ok.inj hrootIp').symm
  obtain rfl : address' = address := by rw [haddress] at haddress'; exact (Except.ok.inj haddress').symm
  obtain rfl : key' = key := Option.some.inj (hholds'.1.symm.trans hholds.1)
  obtain rfl : psk' = psk := Option.some.inj (hholds'.2.symm.trans hholds.2)
  refine ⟨_, _, _, hpeer, hfilter, ⟨rfl, rfl⟩, ⟨_, hrootKey, rfl, rfl⟩, ⟨_, _, hholds, rfl, rfl, rfl, rfl⟩,
    ⟨rfl, rfl⟩, ⟨rfl, rfl⟩, ?_, ?_, ?_, ?_, ?_⟩
  all_goals
    have hne := hv.peer_ne p hp
    have hreach := hv.reachable p hp
    cases hend : v.peerEndpoint p with
    | none =>
      obtain ⟨host, hhost⟩ := Option.ne_none_iff_exists'.mp (hreach hend)
      simp [truthy, hhost]
    | some host =>
      rw [hend] at hne
      simp [truthy, show host ≠ "" by rintro rfl; exact hne rfl]

end CentralizedVpnConfig

/-! ### The VPNs of a valid UVN -/

namespace ValidUvn

variable {settings : UvnSettings} {u : ValidUvn} {v : CentralizedVpnConfig}
  {keymat : CentralizedVpnKeyMaterial}

theorem address_of_private (hroot : u.uvn.enableRootVpn) {c : CellRow} (hc : c ∈ u.uvn.cellRows)
    (hprivate : c.address = none) : u.uvn.address ≠ none := by
  have hok := (Uvn.validate_eq_ok_iff.mp u.valid c hc).2 (decide_eq_true hprivate)
  rcases hok.2 with htruthy | hdisabled
  · exact (of_decide_eq_true htruthy).1
  · exact absurd hroot hdisabled

theorem connectable_root (h : rootVpnConfig settings u.uvn keymat = some v) : v.Connectable := by
  unfold rootVpnConfig at h
  split_ifs at h with henabled
  cases h
  have hpeer : ∀ p ∈ u.uvn.sortedCells.map CellRow.id, ∃ c ∈ u.uvn.cellRows, c.id = p ∧
      (addressesOf u.uvn.sortedCells u.uvn.sortedCells_ids_nodup).get? p = some c.address := by
    intro p hp
    obtain ⟨c, hc, rfl⟩ := List.mem_map.mp hp
    exact ⟨c, Uvn.mem_sortedCells.mp hc, rfl, get?_addressesOf hc⟩
  refine ⟨⟨Uvn.sortedCells_ids_nodup, fun p hp => ?_⟩, u.address_ne, fun p hp => ?_, fun p hp hnone => ?_⟩
  · obtain ⟨c, hc, rfl, -⟩ := hpeer p hp
    exact u.cellIds_pos c hc
  · obtain ⟨c, hc, -, hget⟩ := hpeer p hp
    rw [CentralizedVpnConfig.peerEndpoint, hget]
    exact u.cellAddress_ne c hc
  · obtain ⟨c, hc, -, hget⟩ := hpeer p hp
    rw [CentralizedVpnConfig.peerEndpoint, hget] at hnone
    exact u.address_of_private henabled hc hnone

theorem connectable_particles {c : CellRow} (hc : c ∈ u.uvn.cellRows)
    (h : particlesVpn settings u.uvn c keymat = some v) : v.Connectable := by
  unfold particlesVpn at h
  split_ifs at h with henabled
  cases h
  have haddress : truthy c.address := (Bool.and_eq_true_iff.mp henabled).2
  refine ⟨⟨?_, fun p hp => ?_⟩, u.cellAddress_ne c hc, fun p _ => nofun, fun _ _ _ => ?_⟩
  · refine (List.perm_insertionSort _ _).nodup_iff.mpr ?_
    exact u.uvn.particleIds_nodup.sublist (List.filter_sublist.map _)
  · obtain ⟨q, hq, rfl⟩ := List.mem_map.mp ((List.mem_insertionSort _).mp hp)
    exact u.particleIds_pos q (List.mem_of_mem_filter hq)
  · exact (of_decide_eq_true haddress).1

theorem connectable (h : IsCentralizedVpn settings u.uvn v) : v.Connectable := by
  cases h with
  | root h => exact connectable_root h
  | particles hc h => exact connectable_particles hc h

end ValidUvn

/-- For the root VPN and every particles VPN of a valid UVN: the root's configuration is built exactly
when the keys, names and addresses of all its connections are there, and then the two ends of each
connection agree. -/
theorem centralized_ends_agree (settings : UvnSettings) (u : ValidUvn) (v : CentralizedVpnConfig)
    (hv : IsCentralizedVpn settings u.uvn v) :
    ((∃ root, v.rootConfig = .ok root) ↔ v.Buildable) ∧
      ∀ root, v.rootConfig = .ok root → ∀ p ∈ v.peerIds, ∃ cfg entry rootEntry,
        v.peerConfig p = .ok cfg ∧ v.EndsAgree p root cfg entry rootEntry := by
  have hconnect := ValidUvn.connectable hv
  exact ⟨CentralizedVpnConfig.exists_rootConfig_iff hconnect.assigned,
    fun root hroot p hp => hconnect.endsAgree hroot hp⟩

/-! ### An example -/

/-- A cell with an address and one without. -/
def exampleUvn : ValidUvn where
  uvn := {
    owner := 1
    address := some "registry.example.com"
    enableRootVpn := true
    cellRows := [⟨1, 1, some "a.example.com", [], false⟩, ⟨2, 1, none, [network10 24 (by decide)], false⟩]
    particleRows := [⟨1, 1, false⟩]
    nextCellId := 2
    nextParticleId := 1
    cellIds_nodup := by decide
    cellIds_le := by decide
    particleIds_nodup := Uvn.nodup_one_particleId
    particleIds_le := Uvn.one_particleId_le }
  valid := by rfl
  address_ne := by decide
  cellAddress_ne := by decide
  cellIds_pos := by decide
  particleIds_pos := by decide

def exampleCentralSettings (prefixlen : ℕ) (h : 8 ≤ prefixlen ∧ prefixlen ≤ 32) :
    CentralizedVpnSettings where
  port := 63447
  peerPort := some 63448
  subnet := .v4 (network10 prefixlen h)
  interface := [some "uwg-v", none]
  peerMtu := 1320
  masquerade := true
  forward := false
  tunnel := false
  keepalive := 25

def exampleUvnSettings : UvnSettings where
  rootVpn := exampleCentralSettings 22 (by decide)
  particlesVpn := exampleCentralSettings 16 (by decide)
  backboneVpn := exampleSettings [some "uwg-b", none]
  enableParticlesVpn := true
  cellEnableParticlesVpn := fun _ => true

/-- The key material of a root VPN with two peers. -/
def exampleKeymat : CentralizedVpnKeyMaterial where
  vpn := .root
  peerIds := [1, 2]
  rootKey := some ⟨.root .root, "public0", some "private0", false⟩
  peerKeys := ⟨[(1, ⟨.peer .root 1, "public1", some "private1", false⟩),
    (2, ⟨.peer .root 2, "public2", some "private2", false⟩)], by decide⟩
  presharedKeys := ⟨[((0, 1), ⟨⟨.root, (0, 1)⟩, some "psk1", false⟩),
    ((0, 2), ⟨⟨.root, (0, 2)⟩, some "psk2", false⟩)], by decide⟩

/-- The root and the private cell agree. -/
theorem centralized_ends_agree_example :
    ∃ v root cfg entry rootEntry, rootVpnConfig exampleUvnSettings exampleUvn.uvn exampleKeymat = some v ∧
      v.rootConfig = .ok root ∧ v.peerConfig 2 = .ok cfg ∧ v.EndsAgree 2 root cfg entry rootEntry := by
  have hv := (rfl : rootVpnConfig exampleUvnSettings exampleUvn.uvn exampleKeymat = some _)
  obtain ⟨cfg, entry, rootEntry, hcfg, hagree⟩ :=
    (centralized_ends_agree exampleUvnSettings exampleUvn _ (.root hv)).2 _ rfl 2 (by decide)
  exact ⟨_, _, cfg, entry, rootEntry, hv, rfl, hcfg, hagree⟩

end Uno
