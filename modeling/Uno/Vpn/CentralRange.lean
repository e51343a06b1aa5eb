import Uno.Vpn.CentralEnds

/-!
# The addresses of a centralized VPN

The root of a centralized VPN takes the first address of its subnet, and a peer the one at the distance
of its id. Nothing compares an id with the size of the subnet: the addresses stay between the network
and the broadcast address exactly when every id leaves room for both (`allocatesInRange_iff`).
-/

namespace Uno

/-- An address of the network that a host can have. -/
def IPv4Network.IsHost (n : IPv4Network) (a : IPAddress) : Prop :=
  ∃ host, a = .v4 host ∧ n.contains host ∧ host ≠ n.networkAddress ∧ host ≠ n.broadcastAddress

theorem IPv4Network.isHost_iff {n : IPv4Network} {offset : ℕ} (h : n.networkAddress.toNat + offset < 2 ^ 32) :
    n.IsHost (.v4 ⟨_, h⟩) ↔ 0 < offset ∧ offset + 1 < n.numAddresses := by
  have hne : ∀ a : IPv4Address, (⟨_, h⟩ : IPv4Address) ≠ a ↔ n.networkAddress.toNat + offset ≠ a.toNat := by
    intro a
    exact not_congr ⟨fun heq => congrArg IPv4Address.toNat heq, fun heq => IPv4Address.ext heq⟩
  have hpos := n.numAddresses_pos
  unfold IPv4Network.IsHost
  constructor
  · rintro ⟨host, heq, hcontains, hnetwork, hbroadcast⟩
    obtain rfl := IPAddress.v4.inj heq
    rw [contains_iff] at hcontains
    rw [hne] at hnetwork hbroadcast
    simp only [stop, broadcastAddress] at hcontains hnetwork hbroadcast
    omega
  · rintro ⟨hlow, hhigh⟩
    refine ⟨_, rfl, ?_, ?_, ?_⟩
    · rw [contains_iff]
      simp only [stop]
      omega
    · rw [hne]
      omega
    · rw [hne]
      simp only [stop, broadcastAddress]
      omega

namespace CentralizedVpnConfig

/-- The addresses a configuration assigns. -/
def Config.addresses (cfg : Config) : List IPAddress := cfg.intf.address :: cfg.peers.map Peer.address

/-- If the configurations are built at all, their addresses are distinct hosts of the subnet. -/
def AllocatesInRange (v : CentralizedVpnConfig) : Prop :=
  ∀ root peers, v.build = .ok (root, peers) → root.addresses.Nodup ∧
    ∃ n, v.settings.subnet = .v4 n ∧ ∀ cfg ∈ root :: peers, ∀ a ∈ cfg.addresses, n.IsHost a

/-- Every id, and that of the root, is below the last addresses of the network. -/
def Fits (v : CentralizedVpnConfig) (n : IPv4Network) : Prop :=
  ∀ p ∈ 0 :: v.peerIds, p + 2 < n.numAddresses

variable {v : CentralizedVpnConfig}

theorem addresses_root (hids : v.Assigned) {root : Config} (hroot : v.rootConfig = .ok root) :
    List.Forall₂ (fun p a => v.peerIp p = .ok a) (0 :: v.peerIds) root.addresses := by
  obtain ⟨_, _, address, netmask, entries, -, -, haddress, hnetmask, hentries, rfl⟩ := rootConfig_eq_ok_iff.mp hroot
  obtain ⟨n, hn, -, -⟩ := netmask_eq_ok_iff.mp hnetmask
  have hzero : v.peerIp 0 = .ok address := by
    obtain ⟨hlt, rfl⟩ := (rootIp_eq_ok_iff hn).mp haddress
    exact (peerIp_eq_ok_iff hn).mpr ⟨hlt, rfl⟩
  refine .cons hzero ?_
  rw [List.forall₂_map_right_iff]
  have hpos := hids.2
  clear hroot
  revert hpos hentries
  generalize v.peerIds = l
  intro hentries hpos
  induction hentries with
  | nil => exact .nil
  | @cons p entry l entries hentry hrest ih =>
    obtain ⟨_, _, _, -, hip, rfl⟩ := (rootPeer_eq_ok_iff (hpos p List.mem_cons_self)).mp hentry
    exact .cons hip (ih fun p hp => hpos p (List.mem_cons_of_mem _ hp))

theorem addresses_peer {p : ℕ} (hp : 0 < p) {cfg : Config} (hcfg : v.peerConfig p = .ok cfg) {a : IPAddress}
    (ha : a ∈ cfg.addresses) : v.peerIp p = .ok a ∨ v.rootIp = .ok a := by
  obtain ⟨_, _, _, _, _, _, _, -, -, hip, -, -, hrootIp, rfl⟩ := (peerConfig_eq_ok_iff hp).mp hcfg
  rcases List.mem_cons.mp ha with rfl | ha
  · exact .inl hip
  · rw [List.mem_singleton.mp ha]
    exact .inr hrootIp

theorem isHost_of_fits {n : IPv4Network} (hn : v.settings.subnet = .v4 n) {p : ℕ} (hfits : p + 2 < n.numAddresses)
    {a : IPAddress} (ha : v.peerIp p = .ok a) : n.IsHost a := by
  obtain ⟨hlt, rfl⟩ := (peerIp_eq_ok_iff hn).mp ha
  have hlt' : n.networkAddress.toNat + (1 + p) < 2 ^ 32 := by omega
  have hhost := (n.isHost_iff hlt').mpr (by omega)
  simpa only [Nat.add_assoc] using hhost

theorem nodup_addresses {n : IPv4Network} (hn : v.settings.subnet = .v4 n) {ids : List ℕ} {addresses : List IPAddress}
    (hnodup : ids.Nodup) (h : List.Forall₂ (fun p a => v.peerIp p = .ok a) ids addresses) : addresses.Nodup := by
  induction h with
  | nil => exact .nil
  | @cons p a ids addresses hp hrest ih =>
    obtain ⟨hfresh, hnodup⟩ := List.nodup_cons.mp hnodup
    refine List.nodup_cons.mpr ⟨fun hmem => hfresh ?_, ih hnodup⟩
    obtain ⟨q, hq, hqa⟩ := exists_of_forall₂ hrest.flip hmem
    obtain ⟨hlt, rfl⟩ := (peerIp_eq_ok_iff hn).mp hp
    obtain ⟨hlt', heq⟩ := (peerIp_eq_ok_iff hn).mp hqa
    have hsame := congrArg IPv4Address.toNat (IPAddress.v4.inj heq)
    obtain rfl : q = p := by simp only at hsame; omega
    exact hq

/-- The addresses are in range exactly when nothing is built or every id fits. -/
theorem allocatesInRange_iff (hids : v.Assigned) :
    v.AllocatesInRange ↔ ¬ v.Buildable ∨ ∃ n, v.settings.subnet = .v4 n ∧ v.Fits n := by
  constructor
  · intro h
    by_cases hbuild : v.Buildable
    · obtain ⟨⟨root, peers⟩, hok⟩ := (exists_build_iff hids).mpr hbuild
      obtain ⟨-, n, hn, hhosts⟩ := h root peers hok
      refine .inr ⟨n, hn, fun p hp => ?_⟩
      obtain ⟨a, ha, hip⟩ := exists_of_forall₂ (addresses_root hids (build_eq_ok_iff.mp hok).1) hp
      have hhost := hhosts root List.mem_cons_self a ha
      obtain ⟨hlt, rfl⟩ := (peerIp_eq_ok_iff hn).mp hip
      have hlt' : n.networkAddress.toNat + (1 + p) < 2 ^ 32 := by omega
      have hbounds := (n.isHost_iff hlt').mp (by simpa only [Nat.add_assoc] using hhost)
      omega
    · exact .inl hbuild
  · rintro hcases root peers hok
    have hbuild := (exists_build_iff hids).mp ⟨_, hok⟩
    obtain ⟨n, hn, hfits⟩ := hcases.resolve_left (not_not.mpr hbuild)
    obtain ⟨hroot, hpeers⟩ := build_eq_ok_iff.mp hok
    have haddresses := addresses_root hids hroot
    have hzero : ∀ a, v.rootIp = .ok a → v.peerIp 0 = .ok a := by
      intro a ha
      obtain ⟨hlt, rfl⟩ := (rootIp_eq_ok_iff hn).mp ha
      exact (peerIp_eq_ok_iff hn).mpr ⟨hlt, rfl⟩
    refine ⟨nodup_addresses hn (List.nodup_cons.mpr ⟨fun h => (hids.2 0 h).ne rfl, hids.1⟩) haddresses, n, hn,
      fun cfg hcfg a ha => ?_⟩
    rcases List.mem_cons.mp hcfg with rfl | hcfg
    · obtain ⟨p, hp, hip⟩ := exists_of_forall₂ haddresses.flip ha
      exact isHost_of_fits hn (hfits p hp) hip
    · obtain ⟨p, hp, hpeer⟩ := exists_of_forall₂ hpeers.flip hcfg
      rcases addresses_peer (hids.2 p hp) hpeer ha with hip | hrootIp
      · exact isHost_of_fits hn (hfits p (List.mem_cons_of_mem _ hp)) hip
      · exact isHost_of_fits hn (hfits 0 List.mem_cons_self) (hzero a hrootIp)

/-! ### Examples -/

/-- A VPN with one peer, in a subnet of 1024 addresses. -/
def exampleVpn (peer : ℕ) : CentralizedVpnConfig where
  settings := exampleCentralSettings 22 network10_22
  keymat := {
    vpn := .root
    peerIds := [peer]
    rootKey := some ⟨.root .root, "public0", some "private0", false⟩
    peerKeys := ⟨[(peer, ⟨.peer .root peer, "public1", some "private1", false⟩)], List.nodup_singleton _⟩
    presharedKeys := ⟨[((0, peer), ⟨⟨.root, (0, peer)⟩, some "psk1", false⟩)], List.nodup_singleton _⟩ }
  peerIds := [peer]
  rootEndpoint := some "registry.example.com"
  peerEndpoints := ⟨[(peer, some "a.example.com")], List.nodup_singleton _⟩

theorem allocatesInRange_example : (exampleVpn 1021).AllocatesInRange :=
  (allocatesInRange_iff ⟨by decide, by decide⟩).mpr (.inr ⟨_, rfl, by unfold Fits; decide⟩)

/-- The 1023rd id is outside of the subnet. -/
theorem not_allocatesInRange :
    (exampleVpn 1023).Assigned ∧ ¬ (exampleVpn 1023).AllocatesInRange := by
  refine ⟨⟨by decide, by decide⟩, fun h => ?_⟩
  obtain ⟨-, n, hn, hhosts⟩ := h _ _ rfl
  obtain rfl := IPNetwork.v4.inj hn
  obtain ⟨host, hhost, hcontains, -⟩ := hhosts _ List.mem_cons_self (.v4 ⟨10 * 2 ^ 24 + 1024, by decide⟩)
    (by decide)
  obtain rfl := IPAddress.v4.inj hhost
  exact absurd hcontains (by decide)

end CentralizedVpnConfig

end Uno
