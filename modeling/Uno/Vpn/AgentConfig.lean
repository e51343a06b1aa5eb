import Uno.Vpn.ReadOnly
import Uno.Vpn.Central

/-!
# Configurations from other key material

A read-only backbone configuration asks its key material for the keys of each link and generates none. What a
configuration takes from key material is little: of the keys of an end, its own private half and the public half of
the other. Two key materials that agree on this give the same configurations (`readonlyPeerConfig_eq`,
`peerConfig_congr`, `rootConfig_congr`).
-/

namespace Uno

open PairedValuesMap

/-! ### Read-only backbone configurations -/

namespace P2pVpnConfig

/-- `(keys, psk), _ = assert_pair(…)`; a value alone has no flag to unpack. -/
def unpackAsserted : AssertResult P2pVpnKeyMaterial.PairMaterial → Result P2pVpnKeyMaterial.PairMaterial
  | .tuple material _ => .ok material
  | .value _ => .error (.value "not enough values to unpack")

/-- As `linkStep`, with read-only key material. -/
def readonlyLinkStep (vpn : P2pVpnConfig) (k : P2pVpnKeyMaterial) (peer : ℕ) (cfgs : List WireGuardConfig)
    (x : ℕ × Link) : Result (List WireGuardConfig) := do
  let peerBDeployCfg ← pyGetItem vpn.deployment x.1
  let linkB ← pyGetItem peerBDeployCfg.peers peer
  let (keymat, psk) ← (k.readonlyAssertPair ⟨[.peer peer, .peer x.1], []⟩).1 >>= unpackAsserted
  let endpoint ← pyGetItem vpn.peerEndpoints peer
  let endpointB ← pyGetItem vpn.peerEndpoints x.1
  let name ← vpn.settings.interface.format x.2.port
  .ok (cfgs ++ [linkConfig vpn.settings name peer x.1 x.2 linkB keymat psk endpoint endpointB])

/-- `peer_config` of a read-only configuration. -/
def readonlyPeerConfig (vpn : P2pVpnConfig) (peer : ℕ) (k : P2pVpnKeyMaterial) : Result (List WireGuardConfig) :=
  match vpn.deployment.get? peer with
  | none => .ok []
  | some deployCfg => deployCfg.peers.entries.foldlM (vpn.readonlyLinkStep k peer) []

variable {source : KeySource} {vpn : P2pVpnConfig} {k k' : P2pVpnKeyMaterial} {a : ℕ}

/-- The keys of a link in two key materials, as far as the end `a` uses them: its private key and the public key of the
other end. -/
def SameFor (k k' : P2pVpnKeyMaterial) (a b : ℕ) : Prop :=
  ∃ keys keys' psk, k.Holds a b keys psk ∧ k'.Holds a b keys' psk ∧
    (pick a b a keys').privateKey = (pick a b a keys).privateKey ∧
    (pick a b b keys').publicKey = (pick a b b keys).publicKey

theorem linkConfig_congr {settings : VpnSettings} {name : String} {b : ℕ} {link linkB : Link}
    {keys keys' : WireGuardKeyPair × WireGuardKeyPair} {psk : String} {endpoint endpointB : Option String}
    (hown : (pick a b a keys').privateKey = (pick a b a keys).privateKey)
    (hother : (pick a b b keys').publicKey = (pick a b b keys).publicKey) :
    linkConfig settings name a b link linkB keys' psk endpoint endpointB =
      linkConfig settings name a b link linkB keys psk endpoint endpointB := by
  unfold linkConfig
  rw [hown, hother]

theorem readonlyLinkStep_eq {x : ℕ × Link} (h : SameFor k k' a x.1) (cfgs : List WireGuardConfig) :
    vpn.linkStep source a (cfgs, k) x = vpn.readonlyLinkStep k' a cfgs x >>= fun cfgs => .ok (cfgs, k) := by
  obtain ⟨keys, keys', psk, hholds, hholds', hown, hother⟩ := h
  have hbinds : P2pVpnKeyMaterial.Binds ⟨[.peer a, .peer x.1], []⟩ a x.1 := rfl
  have hro : (k'.readonlyAssertPair ⟨[.peer a, .peer x.1], []⟩).1 >>= unpackAsserted = .ok (keys', psk) := by
    show (k'.roAssertPair ⟨[.peer a, .peer x.1], []⟩).1 >>= unpackAsserted = _
    rw [P2pVpnKeyMaterial.roAssertPair_of_holds hbinds hholds']
    rfl
  simp only [linkStep, readonlyLinkStep, P2pVpnKeyMaterial.assertPair_of_holds source hholds, hro, Except.ok_bind,
    bind_assoc, linkConfig_congr hown hother]

theorem readonlyLinkSteps_eq {l : List (ℕ × Link)} (h : ∀ x ∈ l, SameFor k k' a x.1) (cfgs : List WireGuardConfig) :
    l.foldlM (vpn.linkStep source a) (cfgs, k) =
      l.foldlM (vpn.readonlyLinkStep k' a) cfgs >>= fun cfgs => .ok (cfgs, k) := by
  induction l generalizing cfgs with
  | nil => rfl
  | cons x rest ih =>
    rw [List.foldlM_cons, List.foldlM_cons, readonlyLinkStep_eq (h x List.mem_cons_self)]
    simp only [bind_assoc, Except.ok_bind]
    apply bind_congr
    intro cfgs
    exact ih (fun y hy => h y (List.mem_cons_of_mem _ hy)) cfgs

theorem readonlyPeerConfig_eq (h : ∀ p b, vpn.deployment.get? a = some p → b ∈ p.peers.keys → SameFor k k' a b) :
    vpn.peerConfig source a k = vpn.readonlyPeerConfig a k' >>= fun cfgs => .ok (cfgs, k) := by
  unfold peerConfig readonlyPeerConfig
  cases hget : vpn.deployment.get? a with
  | none => rfl
  | some p => exact readonlyLinkSteps_eq (fun x hx => h p x.1 hget (List.mem_map_of_mem (f := Prod.fst) hx)) []

end P2pVpnConfig

/-! ### Centralized configurations -/

namespace CentralizedVpnConfig

variable {v : CentralizedVpnConfig} {m : CentralizedVpnKeyMaterial}

theorem unpack_congr {p : ℕ} (hp : 0 < p) (hkey : m.peerKeys.get? p = v.keymat.peerKeys.get? p)
    (hpsk : m.presharedKeys.get? (pairKey 0 p) = v.keymat.presharedKeys.get? (pairKey 0 p)) :
    (m.getPeerMaterial p true >>= unpackMaterial) = (v.keymat.getPeerMaterial p true >>= unpackMaterial) := by
  simp only [CentralizedVpnKeyMaterial.getPeerMaterial, if_neg hp.ne', if_true, hkey, hpsk]

/-- A peer's configuration depends on the peer's own keys and on the public key of the root. -/
theorem peerConfig_congr {p : ℕ} (hp : 0 < p) (hkey : m.peerKeys.get? p = v.keymat.peerKeys.get? p)
    (hpsk : m.presharedKeys.get? (pairKey 0 p) = v.keymat.presharedKeys.get? (pairKey 0 p))
    (hroot : m.rootKey.map AsymmKey.publicKey = v.keymat.rootKey.map AsymmKey.publicKey) :
    peerConfig { v with keymat := m } p = v.peerConfig p := by
  have hkeys := unpack_congr hp hkey hpsk
  unfold peerConfig
  simp only [hkeys]
  apply bind_congr
  rintro ⟨key, psk⟩
  apply bind_congr
  intro name
  show (v.peerIp p >>= _) = _
  apply bind_congr
  intro address
  apply bind_congr
  intro netmask
  unfold rootKey
  cases hm : m.rootKey with
  | none =>
    rw [hm, Option.map_none, eq_comm, Option.map_eq_none_iff] at hroot
    rw [hroot]
    rfl
  | some key' =>
    rw [hm, Option.map_some, eq_comm] at hroot
    obtain ⟨key'', hkey'', hpublic⟩ := Option.map_eq_some_iff.mp hroot
    rw [hkey'']
    simp only [Except.ok_bind, hpublic]
    rfl

/-- The root's configuration depends on the root's key, and on the public keys and the preshared keys of the peers. -/
theorem rootConfig_congr (hroot : m.rootKey = v.keymat.rootKey) (hpos : ∀ p ∈ v.peerIds, 0 < p)
    (hkeys : ∀ p ∈ v.peerIds, (m.peerKeys.get? p).map AsymmKey.publicKey =
      (v.keymat.peerKeys.get? p).map AsymmKey.publicKey)
    (hpsks : ∀ p ∈ v.peerIds, m.presharedKeys.get? (pairKey 0 p) = v.keymat.presharedKeys.get? (pairKey 0 p)) :
    rootConfig { v with keymat := m } = v.rootConfig := by
  have hpeer : ∀ p ∈ v.peerIds, rootPeer { v with keymat := m } p = v.rootPeer p := by
    intro p hp
    have hkey := hkeys p hp
    unfold rootPeer
    simp only [CentralizedVpnKeyMaterial.getPeerMaterial, if_neg (hpos p hp).ne', if_true, hpsks p hp]
    cases hm : m.peerKeys.get? p with
    | none =>
      rw [hm, Option.map_none, eq_comm, Option.map_eq_none_iff] at hkey
      rw [hkey]
      rfl
    | some key =>
      rw [hm, Option.map_some, eq_comm] at hkey
      obtain ⟨key', hkey', hpublic⟩ := Option.map_eq_some_iff.mp hkey
      rw [hkey']
      cases hpsk : v.keymat.presharedKeys.get? (pairKey 0 p) with
      | none => rfl
      | some psk =>
        show ((v.peerIp p) >>= _) = ((v.peerIp p) >>= _)
        apply bind_congr
        intro address
        rw [hpublic]
        rfl
  have hrootKey : rootKey { v with keymat := m } = v.rootKey := by rw [rootKey, rootKey, hroot]
  have hpeers : v.peerIds.mapM (rootPeer { v with keymat := m }) = v.peerIds.mapM v.rootPeer := Fold.mapM_congr hpeer
  unfold rootConfig
  rw [hrootKey, hpeers]
  rfl

end CentralizedVpnConfig

end Uno
