import Uno.Registry.RekeyRuns
import Uno.Registry.Ban
import Uno.Agent.Participant

/-!
# Handing over to rekeyed keys

A rekeying of the root VPN is pending until the agent of the registry drops the former keys. Until then the registry
keeps the configuration of its interface (`inUse`), and what a cell computes from the keys of the registry fits that
interface exactly if the cell is not among `rekeyed_cells`; when the former keys are dropped, the registry and all
cells switch to the keys that replaced them (`handover_agrees`).
-/

namespace Uno

open PairedValuesMap

/-! ### Dropping the former keys -/

namespace VpnKeysMap

/-- `clean_dropped_keys`. -/
def cleanDroppedKeys (m : VpnKeysMap) : VpnKeysMap := { m with table := m.table.deleteFlagged }

theorem loadKeys_deleteFlagged (table : KeysTable) : loadKeys table.deleteFlagged false = loadKeys table false := by
  unfold loadKeys
  have hfilter : (table.deleteFlagged.rows.filter fun r => r.flag = false ∧ r.key.2 = 0) =
      table.rows.filter fun r => r.flag = false ∧ r.key.2 = 0 := by
    show ((table.rows.filter fun r => ! r.flag).filter _) = _
    rw [List.filter_filter]
    refine List.filter_congr fun r _ => ?_
    cases r.flag <;> simp
  rw [hfilter]

theorem cleanDroppedKeys_load (table : KeysTable) : (load table).cleanDroppedKeys = load table.deleteFlagged := by
  unfold load cleanDroppedKeys
  rw [loadKeys_deleteFlagged]

end VpnKeysMap

namespace Keymat

def cleanDroppedKeys (m : Keymat) : Keymat :=
  { m with table := m.table.deleteFlagged, presharedKeys := m.presharedKeys.cleanDroppedKeys }

theorem loadRootKey_deleteFlagged (table : CentralTable) :
    loadRootKey table.deleteFlagged false = loadRootKey table false := by
  unfold loadRootKey
  refine congrArg (Option.map _) ?_
  show (table.rows.filter fun r => ! r.flag).find? _ = _
  rw [List.find?_filter]
  congr 1
  funext r
  cases r.flag <;> simp

theorem loadPeerKeys_deleteFlagged (table : CentralTable) :
    loadPeerKeys table.deleteFlagged false = loadPeerKeys table false := by
  unfold loadPeerKeys
  have hrows : table.deleteFlagged.rows.filterMap (peerEntry false) = table.rows.filterMap (peerEntry false) := by
    show (table.rows.filter fun r => ! r.flag).filterMap _ = _
    rw [List.filterMap_filter]
    refine List.filterMap_congr fun r _ => ?_
    cases hflag : r.flag with
    | false => rfl
    | true =>
      unfold peerEntry
      rw [hflag]
      cases r.key <;> rfl
  rw [hrows]

theorem cleanDroppedKeys_load (rows : KeymatRows) :
    (load rows).cleanDroppedKeys = load ⟨rows.keys.deleteFlagged, rows.psks.deleteFlagged⟩ := by
  have hpsks := VpnKeysMap.cleanDroppedKeys_load rows.psks
  have hroot := loadRootKey_deleteFlagged rows.keys
  have hpeers := loadPeerKeys_deleteFlagged rows.keys
  unfold load at *
  unfold cleanDroppedKeys
  rw [hpsks, hroot, hpeers]

end Keymat

namespace RegistryKeys

/-- `drop_rekeyed`. -/
def dropRekeyed (s : RegistryKeys) : RegistryKeys :=
  { s with rootVpn := s.rootVpn.cleanDroppedKeys, rekeying := false }

/-- What the agent of the registry does when the rekeyed configuration was pushed: the former keys are dropped, the
registry is saved, and it is opened again. -/
def applyRekeyed (s : RegistryKeys) : Result RegistryKeys := do
  let s ← s.dropRekeyed.save
  .ok { s with rekeyed := none }

end RegistryKeys

/-! ### Configurations and key values -/

/-- The public and the private key of a key pair. -/
def AsymmKey.halves (key : AsymmKey) : String × Option String := (key.publicKey, key.privateKey)

/-- The keys have the same values; they may differ in whether they were dropped. -/
structure CentralizedVpnKeyMaterial.SameValues (m m' : CentralizedVpnKeyMaterial) : Prop where
  root : m.rootKey.map AsymmKey.halves = m'.rootKey.map AsymmKey.halves
  peers : ∀ p, (m.peerKeys.get? p).map AsymmKey.halves = (m'.peerKeys.get? p).map AsymmKey.halves
  psks : ∀ p, (m.presharedKeys.get? (pairKey 0 p)).map SymmKey.value =
    (m'.presharedKeys.get? (pairKey 0 p)).map SymmKey.value

theorem eq_none_or_of_map_eq {α β : Type} {f : α → β} {o o' : Option α} (h : o.map f = o'.map f) :
    (o = none ∧ o' = none) ∨ ∃ a a', o = some a ∧ o' = some a' ∧ f a = f a' := by
  cases o with
  | none => exact .inl ⟨rfl, Option.map_eq_none_iff.mp h.symm⟩
  | some a =>
    obtain ⟨a', ha', heq⟩ := Option.map_eq_some_iff.mp h.symm
    exact .inr ⟨a, a', rfl, ha', heq.symm⟩

namespace CentralizedVpnConfig

variable {v : CentralizedVpnConfig} {m : CentralizedVpnKeyMaterial} {p : ℕ}

theorem rootPeer_of_values (hp : 0 < p) (h : m.SameValues v.keymat) :
    rootPeer { v with keymat := m } p = v.rootPeer p := by
  unfold rootPeer
  simp only [CentralizedVpnKeyMaterial.getPeerMaterial, if_neg hp.ne', if_true]
  rcases eq_none_or_of_map_eq (h.peers p) with ⟨hkey, hkey'⟩ | ⟨key, key', hkey, hkey', hhalves⟩
  · rw [hkey, hkey']
    rfl
  · rcases eq_none_or_of_map_eq (h.psks p) with ⟨hpsk, hpsk'⟩ | ⟨psk, psk', hpsk, hpsk', hvalue⟩
    · rw [hkey, hkey', hpsk, hpsk']
      rfl
    · rw [hkey, hkey', hpsk, hpsk']
      show (v.peerIp p >>= _) = (v.peerIp p >>= _)
      apply bind_congr
      intro address
      rw [(Prod.mk.inj hhalves).1, hvalue]
      rfl

theorem rootConfig_of_values (hpos : ∀ p ∈ v.peerIds, 0 < p) (h : m.SameValues v.keymat) :
    rootConfig { v with keymat := m } = v.rootConfig := by
  have hpeers : v.peerIds.mapM (rootPeer { v with keymat := m }) = v.peerIds.mapM v.rootPeer :=
    Fold.mapM_congr fun p hp => rootPeer_of_values (hpos p hp) h
  unfold rootConfig
  rw [hpeers]
  apply bind_congr
  intro name
  unfold rootKey
  rcases eq_none_or_of_map_eq h.root with ⟨hkey, hkey'⟩ | ⟨key, key', hkey, hkey', hhalves⟩
  · rw [hkey, hkey']
    rfl
  · rw [hkey, hkey']
    simp only [Except.ok_bind, (Prod.mk.inj hhalves).2]
    rfl

theorem peerConfig_of_values (hp : 0 < p) (h : m.SameValues v.keymat) :
    peerConfig { v with keymat := m } p = v.peerConfig p := by
  unfold peerConfig
  simp only [CentralizedVpnKeyMaterial.getPeerMaterial, if_neg hp.ne', if_true, rootKey]
  rcases eq_none_or_of_map_eq (h.peers p) with ⟨hkey, hkey'⟩ | ⟨key, key', hkey, hkey', hhalves⟩
  · rw [hkey, hkey']
    rfl
  · rcases eq_none_or_of_map_eq (h.psks p) with ⟨hpsk, hpsk'⟩ | ⟨psk, psk', hpsk, hpsk', hvalue⟩
    · rw [hkey, hkey', hpsk, hpsk']
      rfl
    · rcases eq_none_or_of_map_eq h.root with ⟨hroot, hroot'⟩ | ⟨root, root', hroot, hroot', hrootHalves⟩
      · rw [hkey, hkey', hpsk, hpsk', hroot, hroot']
        rfl
      · rw [hkey, hkey', hpsk, hpsk', hroot, hroot']
        simp only [unpackMaterial, CentralizedVpnKeyMaterial.lookup, Except.ok_bind, (Prod.mk.inj hhalves).2,
          (Prod.mk.inj hrootHalves).1, hvalue]
        rfl

/-- The two ends of a connection use keys that fit together. -/
structure KeysMatch (pubkey : String → String) (root cfg : Config) (p : ℕ) : Prop where
  exists_entries : ∃ entry ∈ root.peers, ∃ rootEntry ∈ cfg.peers, entry.id = p ∧ rootEntry.psk = entry.psk ∧
    root.intf.privkey.map pubkey = some rootEntry.pubkey ∧ cfg.intf.privkey.map pubkey = some entry.pubkey

/-- The configuration of a peer that is built from other keys than that of the root. -/
theorem keysMatch_iff {pubkey : String → String} {root cfg : Config} {rootKey rootKey' key key' : AsymmKey}
    {psk psk' : SymmKey} (hids : v.Assigned) (hmem : p ∈ v.peerIds) (hroot : v.rootConfig = .ok root)
    (hcfg : peerConfig { v with keymat := m } p = .ok cfg)
    (hrootKey : v.keymat.rootKey = some rootKey) (hholds : v.keymat.Holds p key psk)
    (hrootKey' : m.rootKey = some rootKey') (hholds' : m.Holds p key' psk') :
    KeysMatch pubkey root cfg p ↔ psk'.value = psk.value ∧ rootKey.privateKey.map pubkey = some rootKey'.publicKey ∧
      key'.privateKey.map pubkey = some key.publicKey := by
  have hpos := hids.2 p hmem
  obtain ⟨_, key₁, _, _, entries, -, hkey₁, -, -, hentries, rfl⟩ := rootConfig_eq_ok_iff.mp hroot
  obtain ⟨key₂, psk₂, _, _, _, rootKey₂, _, hholds₂, -, -, -, hrootKey₂, -, rfl⟩ := (peerConfig_eq_ok_iff hpos).mp hcfg
  obtain rfl := Option.some.inj (hkey₁.symm.trans hrootKey)
  obtain rfl := Option.some.inj (hrootKey₂.symm.trans hrootKey')
  obtain rfl := Option.some.inj (hholds₂.1.symm.trans hholds'.1)
  obtain rfl := Option.some.inj (hholds₂.2.symm.trans hholds'.2)
  obtain ⟨entry, hentry, hfilter⟩ := exists_entry hids hentries hmem
  obtain ⟨key₃, psk₃, _, hholds₃, -, rfl⟩ := (rootPeer_eq_ok_iff hpos).mp hentry
  obtain rfl := Option.some.inj (hholds₃.1.symm.trans hholds.1)
  obtain rfl := Option.some.inj (hholds₃.2.symm.trans hholds.2)
  constructor
  · rintro ⟨entry', hentry', rootEntry, hrootEntry, hid, hpsk, hrootPub, hpub⟩
    have hfound : entry' ∈ entries.filter fun e => e.id = p := List.mem_filter.mpr ⟨hentry', decide_eq_true hid⟩
    rw [hfilter] at hfound
    obtain rfl := List.mem_singleton.mp hfound
    obtain rfl := List.mem_singleton.mp hrootEntry
    exact ⟨hpsk, hrootPub, hpub⟩
  · rintro ⟨hpsk, hrootPub, hpub⟩
    have hfound := List.mem_filter.mp (hfilter ▸ List.mem_singleton_self _)
    exact ⟨_, hfound.1, _, List.mem_singleton_self _, rfl, hpsk, hrootPub, hpub⟩

end CentralizedVpnConfig

namespace Keymat

variable (pubkey : String → String) (vpn : Vpn) (m : Keymat) (ids : List ℕ)

theorem rootKey_material : (m.material pubkey vpn ids).rootKey.map AsymmKey.halves =
    (m.keyPair .root).map fun v => (pubkey v, some v) := by
  show (m.rootKey.map (m.asymmKey pubkey (.root vpn))).map AsymmKey.halves = _
  rw [Option.map_map, keyPair, get?_keys_root, Option.map_map]
  rfl

theorem peerKeys_material (p : ℕ) : ((m.material pubkey vpn ids).peerKeys.get? p).map AsymmKey.halves =
    (m.keyPair (.peer p)).map fun v => (pubkey v, some v) := by
  show ((m.peerKeys.mapEntries _).get? p).map AsymmKey.halves = _
  rw [Dict.get?_mapEntries, Option.map_map, keyPair, get?_keys_peer, Option.map_map]
  rfl

theorem presharedKeys_material (p : ℕ) :
    ((m.material pubkey vpn ids).presharedKeys.get? (pairKey 0 p)).map SymmKey.value =
      (m.psks p).map List.head? := by
  have hpair : pairKey 0 p = (0, p) := by simp [pairKey]
  show ((m.presharedKeys.content.mapEntries _).get? (pairKey 0 p)).map SymmKey.value = _
  rw [hpair, Dict.get?_mapEntries, Option.map_map, psks, Option.map_map]
  refine congrArg (Option.map · _) (funext fun keys => ?_)
  cases keys <;> rfl

/-- The keys at all places have the same values. -/
structure SameValues (m m' : Keymat) : Prop where
  keyPair : ∀ k, m.keyPair k = m'.keyPair k
  psks : ∀ p, m.psks p = m'.psks p

variable {m} {m' : Keymat}

theorem SameValues.material (h : m.SameValues m') :
    (m.material pubkey vpn ids).SameValues (m'.material pubkey vpn ids) := by
  refine ⟨?_, fun p => ?_, fun p => ?_⟩
  · rw [rootKey_material, rootKey_material, h.keyPair]
  · rw [peerKeys_material, peerKeys_material, h.keyPair]
  · rw [presharedKeys_material, presharedKeys_material, h.psks]

end Keymat

namespace RegistryState

open CentralizedVpnConfig (Config)

variable (setup : Setup) (t : RegistryState)

/-- `root_vpn_config` of the UVN, which its agent configures its interface with. -/
def inUse : Result Config := do
  let rekeyed ← t.rekeyedRootVpn setup
  let participant : Participant := ⟨.uvn, t.deployment.getD ∅, [], t.rootVpn setup, rekeyed⟩
  participant.rootVpnConfig

/-- `root_vpn_config` of a cell. -/
def cellConfig (c : ℕ) : Result Config :=
  let participant : Participant := ⟨.cell c, t.deployment.getD ∅, [], t.rootVpn setup, none⟩
  participant.rootVpnConfig

/-- The root VPN of a UVN with some key material. -/
def centralVpn (u : Uvn) (m : Keymat) : CentralizedVpnConfig where
  settings := setup.settings.rootVpn
  keymat := m.material setup.pubkey .root u.activeIds
  peerIds := u.sortedCells.map CellRow.id
  rootEndpoint := u.address
  peerEndpoints := addressesOf u.sortedCells u.sortedCells_ids_nodup

variable {setup t} {u : Uvn} {m m' : Keymat}

theorem assigned_centralVpn (hpos : 0 ∉ u.allCellIds) : (centralVpn setup u m).Assigned := by
  refine ⟨Uvn.sortedCells_ids_nodup, fun p hp => Nat.pos_of_ne_zero fun hzero => hpos ?_⟩
  obtain ⟨c, hc, rfl⟩ := List.mem_map.mp hp
  rw [← hzero]
  exact List.mem_map_of_mem (Uvn.mem_allCells.mpr (Uvn.mem_sortedCells.mp hc))

theorem mem_peerIds_centralVpn {c : ℕ} (hc : c ∈ u.allCellIds) : c ∈ (centralVpn setup u m).peerIds := by
  obtain ⟨d, hd, rfl⟩ := List.mem_map.mp hc
  exact List.mem_map_of_mem (Uvn.mem_sortedCells.mpr (Uvn.mem_allCells.mp hd))

theorem rootConfig_centralVpn (hpos : 0 ∉ u.allCellIds) (h : m.SameValues m') :
    (centralVpn setup u m).rootConfig = (centralVpn setup u m').rootConfig :=
  CentralizedVpnConfig.rootConfig_of_values (v := centralVpn setup u m') (assigned_centralVpn hpos).2
    (h.material setup.pubkey .root u.activeIds)

theorem peerConfig_centralVpn {c : ℕ} (hc : 0 < c) (h : m.SameValues m') :
    (centralVpn setup u m).peerConfig c = (centralVpn setup u m').peerConfig c :=
  CentralizedVpnConfig.peerConfig_of_values (v := centralVpn setup u m') hc (h.material setup.pubkey .root u.activeIds)

theorem keysMatch_centralVpn {root cfg : Config} {c : ℕ} (hpos : 0 ∉ u.allCellIds) (hc : c ∈ u.activeIds)
    (hhas : m.Has (Keymat.Wanted u.activeIds)) (hhas' : m'.Has (Keymat.Wanted u.activeIds))
    (hroot : (centralVpn setup u m).rootConfig = .ok root) (hcfg : (centralVpn setup u m').peerConfig c = .ok cfg) :
    ((∀ k, k = .root ∨ k = .peer c → m'.keyPair k = m.keyPair k) → m'.psks c = m.psks c →
      CentralizedVpnConfig.KeysMatch setup.pubkey root cfg c) ∧
    (CentralizedVpnConfig.KeysMatch setup.pubkey root cfg c →
      (m'.psks c).map List.head? = (m.psks c).map List.head?) := by
  obtain ⟨rootKey, hrootKey⟩ :=
    Option.ne_none_iff_exists'.mp (hhas.rootKey_ne_none setup.pubkey .root trivial u.activeIds)
  obtain ⟨rootKey', hrootKey'⟩ :=
    Option.ne_none_iff_exists'.mp (hhas'.rootKey_ne_none setup.pubkey .root trivial u.activeIds)
  obtain ⟨key, psk, hholds⟩ :=
    hhas.exists_holds setup.pubkey .root (show Keymat.Wanted u.activeIds (.peer c) from hc) u.activeIds
  obtain ⟨key', psk', hholds'⟩ :=
    hhas'.exists_holds setup.pubkey .root (show Keymat.Wanted u.activeIds (.peer c) from hc) u.activeIds
  have hrootHalves := m.rootKey_material setup.pubkey .root u.activeIds
  have hrootHalves' := m'.rootKey_material setup.pubkey .root u.activeIds
  have hhalves := m.peerKeys_material setup.pubkey .root u.activeIds c
  have hhalves' := m'.peerKeys_material setup.pubkey .root u.activeIds c
  have hvalue := m.presharedKeys_material setup.pubkey .root u.activeIds c
  have hvalue' := m'.presharedKeys_material setup.pubkey .root u.activeIds c
  rw [hrootKey, Option.map_some, eq_comm, Option.map_eq_some_iff] at hrootHalves
  rw [hrootKey', Option.map_some, eq_comm, Option.map_eq_some_iff] at hrootHalves'
  rw [hholds.1, Option.map_some, eq_comm, Option.map_eq_some_iff] at hhalves
  rw [hholds'.1, Option.map_some, eq_comm, Option.map_eq_some_iff] at hhalves'
  rw [hholds.2, Option.map_some] at hvalue
  rw [hholds'.2, Option.map_some] at hvalue'
  obtain ⟨rootValue, hrootValue, hrootHalves⟩ := hrootHalves
  obtain ⟨rootValue', hrootValue', hrootHalves'⟩ := hrootHalves'
  obtain ⟨keyValue, hkeyValue, hhalves⟩ := hhalves
  obtain ⟨keyValue', hkeyValue', hhalves'⟩ := hhalves'
  obtain ⟨-, hprivate⟩ := Prod.mk.inj hrootHalves
  obtain ⟨hpublic', -⟩ := Prod.mk.inj hrootHalves'
  obtain ⟨hpublic, -⟩ := Prod.mk.inj hhalves
  obtain ⟨-, hprivate'⟩ := Prod.mk.inj hhalves'
  rw [CentralizedVpnConfig.keysMatch_iff (v := centralVpn setup u m) (assigned_centralVpn hpos)
    (mem_peerIds_centralVpn (Uvn.mem_allCellIds_of_active hc)) hroot hcfg hrootKey hholds hrootKey' hholds',
    ← hprivate, ← hpublic', ← hpublic, ← hprivate']
  constructor
  · intro hsame hpsks
    rw [hsame .root (.inl rfl), hrootValue] at hrootValue'
    rw [hsame (.peer c) (.inr rfl), hkeyValue] at hkeyValue'
    rw [hpsks, ← hvalue] at hvalue'
    obtain rfl := Option.some.inj hrootValue'
    obtain rfl := Option.some.inj hkeyValue'
    exact ⟨Option.some.inj hvalue', rfl, rfl⟩
  · rintro ⟨hpsk, -, -⟩
    rw [← hvalue, ← hvalue', hpsk]

theorem exists_peerConfig_centralVpn {root : Config} {c : ℕ} (hpos : 0 ∉ u.allCellIds) (hc : c ∈ u.activeIds)
    (hhas' : m'.Has (Keymat.Wanted u.activeIds)) (hroot : (centralVpn setup u m).rootConfig = .ok root) :
    ∃ cfg, (centralVpn setup u m').peerConfig c = .ok cfg := by
  have hmem := Uvn.mem_allCellIds_of_active hc
  have hbuildable := (CentralizedVpnConfig.exists_rootConfig_iff (assigned_centralVpn hpos)).mp ⟨root, hroot⟩
  obtain ⟨n, hn, hne, hlt, hpeers⟩ := hbuildable.subnet
  obtain ⟨name, hname⟩ := (CentralizedVpnConfig.name_eq_ok_iff 0).mpr hbuildable.fields
  obtain ⟨rootKey, hrootKey⟩ :=
    Option.ne_none_iff_exists'.mp (hhas'.rootKey_ne_none setup.pubkey .root trivial u.activeIds)
  obtain ⟨key, psk, hholds⟩ :=
    hhas'.exists_holds setup.pubkey .root (show Keymat.Wanted u.activeIds (.peer c) from hc) u.activeIds
  have hcpos : 0 < c := Nat.pos_of_ne_zero fun hzero => hpos (hzero ▸ hmem)
  exact ⟨_, (CentralizedVpnConfig.peerConfig_eq_ok_iff hcpos).mpr ⟨key, psk, name, _, n.prefixlen, rootKey, _, hholds,
    hname, (CentralizedVpnConfig.peerIp_eq_ok_iff hn).mpr ⟨hpeers c (mem_peerIds_centralVpn hmem), rfl⟩,
    CentralizedVpnConfig.netmask_eq_ok_iff.mpr ⟨n, hn, rfl, hne⟩, hrootKey,
    (CentralizedVpnConfig.rootIp_eq_ok_iff hn).mpr ⟨hlt, rfl⟩, rfl⟩⟩

theorem rootVpn_eq (henabled : t.uvn.enableRootVpn) : t.rootVpn setup = some (centralVpn setup t.uvn t.keys.rootVpn) :=
  if_pos henabled

theorem cellConfig_eq (henabled : t.uvn.enableRootVpn) (c : ℕ) :
    t.cellConfig setup c = (centralVpn setup t.uvn t.keys.rootVpn).peerConfig c := by
  unfold cellConfig
  rw [rootVpn_eq henabled]
  rfl

theorem inUse_eq (henabled : t.uvn.enableRootVpn)
    (hhas : (Keymat.loadRekeyed t.keys.rootVpn.rows).Has (Keymat.Wanted t.uvn.activeIds)) :
    t.inUse setup = (centralVpn setup t.uvn
      (if t.keys.rekeying then .loadRekeyed t.keys.rootVpn.rows else t.keys.rootVpn)).rootConfig := by
  unfold inUse rekeyedRootVpn
  rw [rootVpn_eq henabled, henabled, Bool.and_true, hhas.assertKeys _ fun _ hk => hk]
  split_ifs
  · show Participant.rootVpnConfig ⟨.uvn, _, [], _, if _ then _ else _⟩ = _
    rw [if_pos henabled]
    rfl
  · rfl

end RegistryState

/-! ### Runs -/

/-- A registry, and its keys when the former ones were last dropped. -/
structure Handover where
  applied : RegistryKeys
  pending : Rekeying

inductive HandoverAct where
  | rekey (a : RekeyAct)
  | applyRekeyed

def HandoverAct.Ok (h : Handover) : HandoverAct → Prop
  | .rekey a => a.Ok h.pending
  | .applyRekeyed => True

namespace RegistryKeys

variable {settings : UvnSettings} {source : Vpn → ℕ → String} {s s' : RegistryKeys}

/-- The configurations of the root VPN read nothing else. -/
def toState (s : RegistryKeys) : RegistryState := ⟨s, none, false⟩

theorem rekeying_generateKeys (hok : s.generateKeys settings source = .ok s') : s'.rekeying = s.rekeying := by
  obtain ⟨s₁, hpurge, hok⟩ := Except.bind_eq_ok_iff.mp hok
  obtain ⟨s₂, hsave, hok⟩ := Except.bind_eq_ok_iff.mp hok
  obtain ⟨s₃, hroot, hok⟩ := Except.bind_eq_ok_iff.mp hok
  obtain ⟨_, -, hok⟩ := Except.bind_eq_ok_iff.mp hok
  obtain ⟨s₄, hparticles, hsave'⟩ := Except.bind_eq_ok_iff.mp hok
  obtain ⟨particles, -, heq⟩ := Except.bind_eq_ok_iff.mp hparticles
  obtain rfl := Except.ok.inj heq
  calc
    s'.rekeying = s₃.rekeying := (RegistryState.save_frame hsave').2
    _ = s₂.rekeying := (RegistryState.assertRootKeys_frame hroot).2
    _ = s₁.rekeying := (RegistryState.save_frame hsave).2
    _ = s.rekeying := (RegistryState.purgeKeys_frame hpurge).2

theorem rekeying_apply {a : RekeyAct} (hok : a.apply settings source s = .ok s') :
    s'.rekeying = (s.rekeying || decide (a.places s.uvn ≠ [])) := by
  cases a with
  | reopen =>
    obtain rfl := Except.ok.inj hok
    simp [RekeyAct.places]
  | rekeyUvn =>
    obtain ⟨s₁, hrekey, hgenerate⟩ := Except.bind_eq_ok_iff.mp hok
    obtain ⟨s₂, hroot, hrest⟩ := Except.bind_eq_ok_iff.mp hrekey
    obtain rfl : s₂ = s₁ := Except.ok.inj hrest
    obtain ⟨⟨deletes, s₃⟩, hdeletes, hdrop⟩ := Except.bind_eq_ok_iff.mp hroot
    obtain ⟨rekeyed, rfl⟩ := dropOrDelete_eq_ok hdeletes
    obtain ⟨⟨n, m⟩, -, heq⟩ := Except.bind_eq_ok_iff.mp hdrop
    obtain rfl := Except.ok.inj heq
    rw [rekeying_generateKeys hgenerate]
    simp [RekeyAct.places]
  | rekeyCell c =>
    obtain ⟨s₁, hrekey, hgenerate⟩ := Except.bind_eq_ok_iff.mp hok
    obtain ⟨s₂, hroot, hrest⟩ := Except.bind_eq_ok_iff.mp hrekey
    obtain rfl : s₂ = s₁ := Except.ok.inj hrest
    obtain ⟨⟨deletes, s₃⟩, hdeletes, hdrop⟩ := Except.bind_eq_ok_iff.mp hroot
    obtain ⟨rekeyed, rfl⟩ := dropOrDelete_eq_ok hdeletes
    obtain ⟨⟨n, m⟩, -, heq⟩ := Except.bind_eq_ok_iff.mp hdrop
    obtain rfl := Except.ok.inj heq
    rw [rekeying_generateKeys hgenerate]
    simp [RekeyAct.places]

theorem rekeyedCells_eq (hnone : s.rekeyed = none) (hactive : ∀ p ∈ s.rootVpn.droppedPeers, p ∈ s.uvn.activeIds) :
    s.rekeyedCells = .ok (s.rootVpn.droppedPeers, { s with rekeyed := some s.rootVpn.droppedPeers }) := by
  have hmapM : s.rootVpn.droppedPeers.mapM
      (fun p => if p ∈ s.uvn.activeIds then (.ok p : Result ℕ) else .error .stopIteration) =
        .ok (s.rootVpn.droppedPeers.map id) := Fold.mapM_eq_ok fun p hp => if_pos (hactive p hp)
  rw [List.map_id] at hmapM
  unfold rekeyedCells
  rw [hnone]
  simp only [hmapM]
  rfl

theorem save_of_settled (hclean : s.registry.dirty = false) (hroot : s.rootVpn.Settled)
    (hparticles : ∀ c, (s.particlesVpns c).Settled) :
    s.save = .ok { s with
      rootVpn := .load s.rootVpn.rows
      particlesVpns := fun c => .load (s.particlesVpns c).rows } := by
  have hfold : s.uvn.allCellIds.foldlM (fun (ms : ℕ → Keymat) c => do .ok (Function.update ms c (← (ms c).save)))
      s.particlesVpns = .ok s.particlesVpns :=
    (Fold.foldlM_update_iff (fun _ m => Keymat.save m) s.uvn.allCellIds_nodup).mpr
      ⟨fun c _ => (hparticles c).save, fun _ _ => rfl⟩
  rw [save, Registry.save_of_clean hclean, Except.ok_bind, hroot.save, Except.ok_bind]
  change (s.uvn.allCellIds.foldlM _ s.particlesVpns >>= _) = _
  rw [hfold]
  rfl

/-- The registry after the former keys were dropped. -/
theorem applyRekeyed_eq (hclean : s.registry.dirty = false) (hroot : s.rootVpn = .load s.rootVpn.rows)
    (hparticles : ∀ c, s.particlesVpns c = .load (s.particlesVpns c).rows) :
    s.applyRekeyed = .ok { s with
      rekeying := false
      rekeyed := none
      rootVpn := .load ⟨s.rootVpn.table.deleteFlagged, s.rootVpn.presharedKeys.table.deleteFlagged⟩
      particlesVpns := fun c => .load (s.particlesVpns c).rows } := by
  have hcleaned : s.dropRekeyed.rootVpn =
      .load ⟨s.rootVpn.table.deleteFlagged, s.rootVpn.presharedKeys.table.deleteFlagged⟩ := by
    show s.rootVpn.cleanDroppedKeys = _
    rw [hroot]
    exact Keymat.cleanDroppedKeys_load _
  have hsave : s.dropRekeyed.save = _ := save_of_settled hclean (hcleaned ▸ Keymat.settled_load _) fun c => by
    show (s.particlesVpns c).Settled
    rw [hparticles]
    exact Keymat.settled_load _
  rw [applyRekeyed, hsave, Except.ok_bind, hcleaned]
  rfl

end RegistryKeys

namespace Keymat

theorem sameValues_deleteFlagged (rows : KeymatRows) :
    (load ⟨rows.keys.deleteFlagged, rows.psks.deleteFlagged⟩).SameValues (load rows) := by
  rw [← cleanDroppedKeys_load]
  exact ⟨fun _ => rfl, fun _ => rfl⟩

end Keymat

namespace Handover

def keys (h : Handover) : RegistryKeys := h.pending.keys

def step (settings : UvnSettings) (source : Vpn → ℕ → String) (h : Handover) : HandoverAct → Result Handover
  | .rekey a => do .ok { h with pending := ← h.pending.step settings source a }
  | .applyRekeyed => do
    let keys ← h.keys.applyRekeyed
    .ok ⟨keys, ⟨keys, []⟩⟩

/-- What a run keeps: the rekeyings since the former keys were last dropped are a run of their own. -/
structure Inv (source : Vpn → ℕ → String) (h : Handover) : Prop where
  generated : h.applied.Generated
  noBanned : h.applied.NoBanned
  renewed : Rekeying.Inv source h.applied h.pending
  rekeying : h.pending.renewed ≠ [] → h.keys.rekeying = true
  /-- The key of the root is renewed with all others. -/
  root : .root ∈ h.pending.renewed → ∀ c ∈ h.applied.uvn.activeIds, .peer c ∈ h.pending.renewed

variable {settings : UvnSettings} {source : Vpn → ℕ → String} {s₀ : RegistryKeys} {h h' : Handover}

theorem Inv.refl (hgenerated : s₀.Generated) (hbanned : s₀.NoBanned) : Inv source ⟨s₀, ⟨s₀, []⟩⟩ :=
  ⟨hgenerated, hbanned, .refl hgenerated, fun hne => absurd rfl hne, fun hmem => by cases hmem⟩

theorem Inv.rekey (hinv : Inv source h) {a : RekeyAct} (hok : a.Ok h.pending) :
    ∃ h', h.step settings source (.rekey a) = .ok h' ∧ Inv source h' := by
  obtain ⟨t, hstep, hrenewed⟩ := hinv.renewed.exists_step settings hinv.generated hinv.noBanned hok
  refine ⟨{ h with pending := t }, by rw [step, hstep]; rfl, hinv.generated, hinv.noBanned, hrenewed, ?_, ?_⟩
  · obtain ⟨keys, happly, heq⟩ := Except.bind_eq_ok_iff.mp hstep
    obtain rfl := Except.ok.inj heq
    intro hne
    show keys.rekeying = true
    rw [RegistryKeys.rekeying_apply happly]
    by_cases hplaces : a.places h.pending.keys.uvn = []
    · have hbefore : h.pending.keys.rekeying = true := hinv.rekeying fun hnil => hne (by rw [hnil, hplaces]; rfl)
      rw [hbefore, Bool.true_or]
    · rw [decide_eq_true hplaces, Bool.or_true]
  · obtain ⟨keys, -, heq⟩ := Except.bind_eq_ok_iff.mp hstep
    obtain rfl := Except.ok.inj heq
    intro hroot c hc
    rcases List.mem_append.mp hroot with hroot | hroot
    · exact List.mem_append_left _ (hinv.root hroot c hc)
    · refine List.mem_append_right _ ?_
      rw [hinv.renewed.uvn] at hroot ⊢
      cases a with
      | rekeyUvn => exact List.mem_cons_of_mem _ (List.mem_map_of_mem hc)
      | rekeyCell d => cases List.mem_singleton.mp hroot
      | reopen => cases hroot

theorem Inv.applyRekeyed (hinv : Inv source h) :
    ∃ keys, h.keys.applyRekeyed = .ok keys ∧ Inv source ⟨keys, ⟨keys, []⟩⟩ ∧ keys.uvn = h.applied.uvn ∧
      keys.rekeying = false ∧ keys.rootVpn.SameValues h.keys.rootVpn := by
  have hregistry : h.keys.registry = h.applied.registry := hinv.renewed.registry
  have hgenerated := hinv.generated
  have hwanted := hinv.renewed.wanted_iff hgenerated hinv.noBanned
  have hwantedPair := hinv.renewed.wantedPair_iff hgenerated hinv.noBanned
  obtain ⟨keys, happly, hregistry', hrekeying, hrekeyed, hroot, hparticles⟩ : ∃ keys, h.keys.applyRekeyed = .ok keys ∧
      keys.registry = h.keys.registry ∧ keys.rekeying = false ∧ keys.rekeyed = none ∧
      keys.rootVpn = .load ⟨h.keys.rootVpn.table.deleteFlagged, h.keys.rootVpn.presharedKeys.table.deleteFlagged⟩ ∧
      ∀ c, keys.particlesVpns c = .load (h.keys.particlesVpns c).rows :=
    ⟨_, RegistryKeys.applyRekeyed_eq (hregistry ▸ hgenerated.clean) hinv.renewed.root hinv.renewed.particles,
      rfl, rfl, rfl, rfl, fun _ => rfl⟩
  have htable : keys.rootVpn.table = h.keys.rootVpn.table.deleteFlagged := by rw [hroot]; rfl
  have hpsks : keys.rootVpn.presharedKeys.table = h.keys.rootVpn.presharedKeys.table.deleteFlagged := by rw [hroot]; rfl
  have huvn : keys.uvn = h.applied.uvn := congrArg Registry.uvn (hregistry'.trans hregistry)
  have hkey : ∀ k, keys.rootVpn.table.get? k false ≠ none ↔ Keymat.Wanted h.applied.uvn.activeIds k := by
    intro k
    rw [htable, (FlaggedTable.get?_deleteFlagged _ k).1]
    exact hwanted k
  refine ⟨keys, happly, .refl ⟨?_, fun c => ?_, ?_, ?_, ?_, ?_, fun c hc => ?_, fun p hp => ?_, fun k => ?_,
    fun k => ?_, fun k => ?_, fun ids hids => ?_⟩ ?_, huvn, hrekeying, ?_⟩
  · rw [hroot]
    rfl
  · rw [hparticles]
    rfl
  · rw [hregistry', hregistry]
    exact hgenerated.clean
  · rw [huvn]
    exact hgenerated.enabled
  · rw [huvn]
    exact hgenerated.ids_pos
  · exact (hkey .root).mpr trivial
  · exact (hkey (.peer c)).mpr (huvn ▸ hc)
  · have hactive : p ∈ h.applied.uvn.activeIds := (hkey (.peer p)).mp hp
    rw [huvn]
    exact Uvn.mem_allCellIds_of_active hactive
  · rw [hpsks, (FlaggedTable.get?_deleteFlagged _ k).1]
    refine (hwantedPair k).trans (exists_congr fun p => and_congr_left fun _ => ?_)
    exact (hkey (.peer p)).symm
  · rw [htable]
    exact (FlaggedTable.get?_deleteFlagged _ k).2
  · rw [hpsks]
    exact (FlaggedTable.get?_deleteFlagged _ k).2
  · rw [hrekeyed] at hids
    cases hids
  · show keys.uvn.excludedCells = []
    rw [huvn]
    exact hinv.noBanned
  · have hsame := Keymat.sameValues_deleteFlagged h.keys.rootVpn.rows
    have hload : h.keys.rootVpn = .load h.keys.rootVpn.rows := hinv.renewed.root
    rw [← hload] at hsame
    rw [hroot]
    exact hsame

/-! ### Configurations while a rekeying is pending -/

open RegistryState

section configurations
variable {setup : Setup}

theorem Inv.has (hinv : Inv source h) : h.keys.rootVpn.Has (Keymat.Wanted h.keys.uvn.activeIds) := by
  obtain ⟨htidy, hsettled⟩ := hinv.renewed.tidy
  have huvn : h.keys.uvn = h.applied.uvn := hinv.renewed.uvn
  rw [huvn]
  refine ⟨fun k hk hnone => ?_, fun p hp hnone => ?_⟩
  · have hget := Keymat.get?_table htidy hsettled k
    refine (hinv.renewed.wanted_iff hinv.generated hinv.noBanned k).mpr hk (hget.trans ?_)
    exact Option.map_eq_none_iff.mpr hnone
  · refine (hinv.renewed.wantedPair_iff hinv.generated hinv.noBanned ((0, p), 0)).mpr ⟨p, hp, rfl⟩ ?_
    exact (htidy.psks.get?_table hsettled.psks (0, p)).mpr hnone

theorem Inv.has_applied (hinv : Inv source h) : h.applied.rootVpn.Has (Keymat.Wanted h.applied.uvn.activeIds) :=
  Inv.has (@Inv.refl source h.applied hinv.generated hinv.noBanned)

theorem Inv.inUse_eq (hinv : Inv setup.source h) : h.keys.toState.inUse setup =
    (centralVpn setup h.applied.uvn h.applied.rootVpn).rootConfig := by
  have huvn : h.keys.uvn = h.applied.uvn := hinv.renewed.uvn
  have hload : h.keys.rootVpn = .load h.keys.rootVpn.rows := hinv.renewed.root
  have hkeeps := hinv.renewed.keeps hinv.generated hinv.noBanned
  have hhas : (Keymat.loadRekeyed h.keys.rootVpn.rows).Has (Keymat.Wanted h.keys.uvn.activeIds) :=
    Keymat.Has.loadRekeyed (hload ▸ hinv.has)
  have heq := @RegistryState.inUse_eq setup h.keys.toState
    (show h.keys.uvn.enableRootVpn = true from huvn ▸ hinv.generated.enabled) hhas
  refine heq.trans ?_
  show (centralVpn setup h.keys.uvn _).rootConfig = _
  rw [huvn]
  refine rootConfig_centralVpn hinv.generated.ids_pos ?_
  by_cases hrekeying : h.keys.rekeying = true
  · have hrekeying' : h.keys.toState.keys.rekeying = true := hrekeying
    rw [if_pos hrekeying']
    exact ⟨hkeeps.rekeyed, hkeeps.rekeyed_psk⟩
  · have hrekeying' : ¬ h.keys.toState.keys.rekeying = true := hrekeying
    have hnone : h.pending.renewed = [] := by
      by_contra hne
      exact hrekeying (hinv.rekeying hne)
    rw [if_neg hrekeying']
    exact ⟨fun k => hkeeps.current k (by rw [hnone]; exact List.not_mem_nil),
      fun p => hkeeps.current_psk p (by rw [hnone]; exact List.not_mem_nil)⟩

theorem Inv.cellConfig_eq (hinv : Inv setup.source h) (c : ℕ) : h.keys.toState.cellConfig setup c =
    (centralVpn setup h.applied.uvn h.keys.rootVpn).peerConfig c := by
  have huvn : h.keys.uvn = h.applied.uvn := hinv.renewed.uvn
  rw [← huvn]
  exact RegistryState.cellConfig_eq (t := h.keys.toState)
    (show h.keys.uvn.enableRootVpn = true from huvn ▸ hinv.generated.enabled) c

/-- `rekeyed_cells`, as a registry that was just opened computes it: the cells whose keys were renewed. -/
theorem Inv.rekeyedCells (hinv : Inv source h) :
    ∃ s, RegistryKeys.rekeyedCells { h.keys with rekeyed := none } = .ok (h.keys.rootVpn.droppedPeers, s) ∧
      ∀ c, c ∈ h.keys.rootVpn.droppedPeers ↔ .peer c ∈ h.pending.renewed := by
  have huvn : h.keys.uvn = h.applied.uvn := hinv.renewed.uvn
  have hmem : ∀ p, p ∈ h.keys.rootVpn.droppedPeers ↔ .peer p ∈ h.pending.renewed := fun p => by
    rw [Keymat.mem_droppedPeers]
    exact hinv.renewed.dropped_iff hinv.generated hinv.noBanned (.peer p)
  exact ⟨_, RegistryKeys.rekeyedCells_eq (s := { h.keys with rekeyed := none }) rfl fun p hp => by
    show p ∈ h.keys.uvn.activeIds
    rw [huvn]
    exact hinv.renewed.places _ ((hmem p).mp hp), hmem⟩

/-- A new preshared key is none of those that are in use. -/
def Fresh (setup : Setup) (h : Handover) : Prop :=
  ∀ i, h.applied.rootVpn.presharedKeys.table.lastId < i → ∀ p, h.applied.rootVpn.psks p ≠ some [setup.source .root i]

/-- A cell fits the interface of the registry exactly if its keys were not renewed. -/
theorem Inv.keysMatch_iff (hinv : Inv setup.source h) {root : CentralizedVpnConfig.Config}
    (hroot : h.keys.toState.inUse setup = .ok root) {c : ℕ} (hc : c ∈ h.applied.uvn.activeIds) :
    ∃ cfg, h.keys.toState.cellConfig setup c = .ok cfg ∧
      (.peer c ∉ h.pending.renewed → CentralizedVpnConfig.KeysMatch setup.pubkey root cfg c) ∧
      (Fresh setup h → .peer c ∈ h.pending.renewed → ¬ CentralizedVpnConfig.KeysMatch setup.pubkey root cfg c) := by
  have huvn : h.keys.uvn = h.applied.uvn := hinv.renewed.uvn
  have hkeeps := hinv.renewed.keeps hinv.generated hinv.noBanned
  have hhas := hinv.has
  rw [huvn] at hhas
  rw [hinv.inUse_eq] at hroot
  rw [hinv.cellConfig_eq]
  obtain ⟨cfg, hcfg⟩ := exists_peerConfig_centralVpn hinv.generated.ids_pos hc hhas hroot
  obtain ⟨hfits, hpsk⟩ := keysMatch_centralVpn hinv.generated.ids_pos hc hinv.has_applied hhas hroot hcfg
  refine ⟨cfg, hcfg, fun hnot => ?_, fun hfresh hrenewed hmatch => ?_⟩
  · refine hfits (fun k hk => ?_) (hkeeps.current_psk c hnot)
    rcases hk with rfl | rfl
    · exact hkeeps.current .root fun hroot' => hnot (hinv.root hroot' c hc)
    · exact hkeeps.current (.peer c) hnot
  · obtain ⟨i, hi, hnew⟩ := hkeeps.renewed_psk c hrenewed
    have hvalue := hpsk hmatch
    obtain ⟨keys, hkeys⟩ := Option.ne_none_iff_exists'.mp (hinv.has_applied.psks c hc)
    have hold := VpnKeysMap.values_loadKeys h.applied.rootVpn.presharedKeys.table false (0, c)
    have hcontent : h.applied.rootVpn.presharedKeys.content =
        VpnKeysMap.loadKeys h.applied.rootVpn.presharedKeys.table false :=
      congrArg (fun m : Keymat => m.presharedKeys.content) hinv.generated.root
    have hpsks : h.applied.rootVpn.psks c =
        (h.applied.rootVpn.presharedKeys.table.get? ((0, c), 0) false).map fun v => [v] := by
      unfold Keymat.psks
      rw [hcontent]
      exact hold
    have hnew' : h.keys.rootVpn.psks c = some [setup.source .root i] := hnew
    rw [hnew', hpsks] at hvalue
    cases hget : h.applied.rootVpn.presharedKeys.table.get? ((0, c), 0) false with
    | none =>
      rw [hget] at hvalue
      cases hvalue
    | some v =>
      rw [hget] at hvalue hpsks
      refine hfresh i hi c ?_
      rw [hpsks]
      have hv : some (setup.source .root i) = some v := Option.some.inj hvalue
      rw [Option.some.inj hv]
      rfl

end configurations

/-! ### The handover -/

/-- What the registry and its cells see of a pending rekeying, and of its end. -/
structure Agrees (setup : Setup) (h : Handover) : Prop where
  /-- The registry keeps the configuration of its interface. -/
  kept : h.keys.toState.inUse setup = h.applied.toState.inUse setup
  /-- A cell that computes its configuration from the keys of the registry fits the interface of the registry exactly if
  it is not among the rekeyed cells. -/
  rekeyed : ∃ ids s, RegistryKeys.rekeyedCells { h.keys with rekeyed := none } = .ok (ids, s) ∧
    ∀ root, h.keys.toState.inUse setup = .ok root → ∀ c ∈ h.keys.uvn.activeIds,
      ∃ cfg, h.keys.toState.cellConfig setup c = .ok cfg ∧
        (c ∉ ids → CentralizedVpnConfig.KeysMatch setup.pubkey root cfg c) ∧
        (Fresh setup h → c ∈ ids → ¬ CentralizedVpnConfig.KeysMatch setup.pubkey root cfg c)
  /-- Once the former keys are dropped, each cell fits the interface of the registry, with the configuration that it
  could compute before. -/
  switched : ∃ keys, h.keys.applyRekeyed = .ok keys ∧
    ∀ root, keys.toState.inUse setup = .ok root → ∀ c ∈ h.keys.uvn.activeIds,
      ∃ cfg, keys.toState.cellConfig setup c = .ok cfg ∧ h.keys.toState.cellConfig setup c = .ok cfg ∧
        CentralizedVpnConfig.KeysMatch setup.pubkey root cfg c

section runs
variable {setup : Setup}

theorem Inv.agrees (hinv : Inv setup.source h) : h.Agrees setup := by
  have huvn : h.keys.uvn = h.applied.uvn := hinv.renewed.uvn
  obtain ⟨s, hrekeyed, hmem⟩ := hinv.rekeyedCells
  obtain ⟨keys, happly, hinv', huvn', -, hsame⟩ := hinv.applyRekeyed
  refine ⟨?_, ⟨_, s, hrekeyed, fun root hroot c hc => ?_⟩, keys, happly, fun root hroot c hc => ?_⟩
  · exact hinv.inUse_eq.trans (Inv.refl hinv.generated hinv.noBanned).inUse_eq.symm
  · rw [huvn] at hc
    obtain ⟨cfg, hcfg, hfits, hmismatch⟩ := hinv.keysMatch_iff hroot hc
    exact ⟨cfg, hcfg, fun hnot => hfits fun hren => hnot ((hmem c).mpr hren),
      fun hfresh hren => hmismatch hfresh ((hmem c).mp hren)⟩
  · rw [huvn] at hc
    have hc' : c ∈ keys.uvn.activeIds := by rwa [huvn']
    have hpos : 0 < c := Nat.pos_of_ne_zero fun hzero =>
      hinv.generated.ids_pos (hzero ▸ Uvn.mem_allCellIds_of_active hc)
    obtain ⟨cfg, hcfg, hfits, -⟩ := hinv'.keysMatch_iff hroot hc'
    have hcells : keys.toState.cellConfig setup c = h.keys.toState.cellConfig setup c := by
      refine (hinv'.cellConfig_eq c).trans ?_
      rw [hinv.cellConfig_eq c]
      show (centralVpn setup keys.uvn keys.rootVpn).peerConfig c = _
      rw [huvn']
      exact peerConfig_centralVpn hpos hsame
    exact ⟨cfg, hcfg, hcells.symm.trans hcfg, hfits List.not_mem_nil⟩

theorem Inv.exists_step (hinv : Inv source h) {a : HandoverAct} (hok : a.Ok h) :
    ∃ h', h.step settings source a = .ok h' ∧ Inv source h' := by
  cases a with
  | rekey a => exact hinv.rekey hok
  | applyRekeyed =>
    obtain ⟨keys, happly, hinv', -⟩ := hinv.applyRekeyed
    exact ⟨_, by rw [step, happly]; rfl, hinv'⟩

/-- In a run of rekeyings and of drops of the former keys, no step fails; until the former keys are dropped the
interface of the registry stays as it is, the rekeyed cells are those that do not fit it, and when they are dropped all
cells fit again. -/
theorem handover_agrees (setup : Setup) (hgenerated : s₀.Generated) (hbanned : s₀.NoBanned)
    (hrun : Run.Reaches (step setup.settings setup.source) (fun h a => a.Ok h) ⟨s₀, ⟨s₀, []⟩⟩ h) :
    (∀ a : HandoverAct, a.Ok h → ∃ h', h.step setup.settings setup.source a = .ok h') ∧ h.Agrees setup := by
  have hinv : Inv setup.source h := hrun.invariant (.refl hgenerated hbanned) fun h a h' hinv hok hstep => by
    obtain ⟨h'', hstep', hinv'⟩ := @Inv.exists_step setup.settings setup.source h hinv a hok
    rw [hstep] at hstep'
    exact Except.ok.inj hstep' ▸ hinv'
  refine ⟨fun a hok => ?_, hinv.agrees⟩
  obtain ⟨h', hstep, -⟩ := @Inv.exists_step setup.settings setup.source h hinv a hok
  exact ⟨h', hstep⟩

theorem fresh_exampleStart (t : Rekeying) : Fresh exampleSetup ⟨Rekeying.exampleStart, t⟩ := by
  intro i _ p heq
  obtain ⟨keys, hkeys, hvalue⟩ := Option.map_eq_some_iff.mp heq
  have hmem := Dict.get?_eq_some_iff.mp hkeys
  have hentries : Rekeying.exampleStart.rootVpn.presharedKeys.content.entries = [((0, 1), [⟨1, "psk a"⟩])] := by rfl
  rw [hentries] at hmem
  obtain ⟨-, rfl⟩ := Prod.mk.inj (List.mem_singleton.mp hmem)
  have hpsk : "psk a" = "key " ++ toString i := List.head_eq_of_cons_eq hvalue
  have hhead := congrArg (fun s : String => s.toList.head?) hpsk
  rw [String.toList_append] at hhead
  have hhead : some 'p' = some 'k' := hhead
  cases hhead

/-- The example registry once its only cell is rekeyed. -/
def rekeyedCell : Handover :=
  (step exampleSetup.settings exampleSetup.source ⟨Rekeying.exampleStart, ⟨Rekeying.exampleStart, []⟩⟩
    (.rekey (.rekeyCell 1))).toOption.getD ⟨Rekeying.exampleStart, ⟨Rekeying.exampleStart, []⟩⟩

/-- The rekeyed cell does not fit the interface of the registry until the former keys are dropped. -/
theorem handover_agrees_example : ∃ root cfg, rekeyedCell.keys.toState.inUse exampleSetup = .ok root ∧
    rekeyedCell.keys.toState.cellConfig exampleSetup 1 = .ok cfg ∧
    ¬ CentralizedVpnConfig.KeysMatch exampleSetup.pubkey root cfg 1 := by
  have hstep : step exampleSetup.settings exampleSetup.source ⟨Rekeying.exampleStart, ⟨Rekeying.exampleStart, []⟩⟩
      (.rekey (.rekeyCell 1)) = .ok rekeyedCell := rfl
  have hbanned : Rekeying.exampleStart.NoBanned := rfl
  obtain ⟨-, hagrees⟩ := handover_agrees exampleSetup Rekeying.generated_exampleStart hbanned
    (.step (.rekey (.rekeyCell 1)) .refl ⟨by decide, fun ids hids => by cases hids⟩ hstep)
  obtain ⟨ids, s, hids, hrekeyed⟩ := hagrees.rekeyed
  obtain ⟨root, hroot⟩ : ∃ root, rekeyedCell.keys.toState.inUse exampleSetup = .ok root := ⟨_, rfl⟩
  have hmem : 1 ∈ ids := by
    have hcells : RegistryKeys.rekeyedCells { rekeyedCell.keys with rekeyed := none } = .ok ([1], _) := rfl
    rw [hcells] at hids
    rw [← (Prod.mk.inj (Except.ok.inj hids)).1]
    exact List.mem_singleton_self 1
  obtain ⟨cfg, hcfg, -, hmismatch⟩ := hrekeyed root hroot 1 (by decide)
  exact ⟨root, cfg, hroot, hcfg, hmismatch (fresh_exampleStart _) hmem⟩

end runs

end Handover

end Uno
