import Uno.Vpn.Keymat
import Uno.Vpn.CentralEnds

/-!
# Key material of configurations

The configurations of a VPN read their keys from its key material. A centralized configuration looks up the
keys of its own list of peers (`KeysComplete`), which may differ from the list the key material asserts; when
all keys are there, building the configuration raises no key error (`KeysComplete.avoids_build`). A backbone
configuration asserts the keys of each link when it reads them.
-/

namespace Uno

open PairedValuesMap

/-! ### From rows to key material -/

namespace Keymat

variable (pubkey : String → String) (vpn : Vpn) (m : Keymat)

/-- A key pair in memory; `pubkey` is what `wg pubkey` computes from the private key. -/
def asymmKey (keyId : AsymmKeyId) (key : KeyObject) : AsymmKey where
  keyId := keyId
  publicKey := pubkey key.value
  privateKey := some key.value
  dropped := m.table.rows.any fun r => r.id = key.id && r.flag

def symmKey (pair : ℕ × ℕ) (keys : List KeyObject) : SymmKey where
  keyId := ⟨vpn, pair⟩
  value := keys.head?.map KeyObject.value
  dropped := m.presharedKeys.table.rows.any fun r => some r.id = keys.head?.map KeyObject.id && r.flag

/-- The key material that configurations read. -/
def material (peerIds : List ℕ) : CentralizedVpnKeyMaterial where
  vpn := vpn
  peerIds := peerIds
  rootKey := m.rootKey.map (m.asymmKey pubkey (.root vpn))
  peerKeys := m.peerKeys.mapEntries fun p => m.asymmKey pubkey (.peer vpn p)
  presharedKeys := m.presharedKeys.content.mapEntries (m.symmKey vpn)

/-- The key pairs at some places are there, with the preshared keys of the peers. -/
structure Has (S : KeyPlace → Prop) : Prop where
  keys : ∀ k, S k → m.keys.get? k ≠ none
  psks : ∀ p, S (.peer p) → m.presharedKeys.content.get? (0, p) ≠ none

variable {m m' : Keymat} {S S' : KeyPlace → Prop} {peerIds : List ℕ}

theorem Has.mono (h : m.Has S) (hsub : ∀ k, S' k → S k) : m.Has S' :=
  ⟨fun k hk => h.keys k (hsub k hk), fun p hp => h.psks p (hsub _ hp)⟩

theorem Has.exists_holds (h : m.Has S) {p : ℕ} (hp : S (.peer p)) (ids : List ℕ) :
    ∃ key psk, (m.material pubkey vpn ids).Holds p key psk := by
  obtain ⟨key, hkey⟩ := Option.ne_none_iff_exists'.mp (h.keys _ hp)
  obtain ⟨keys, hkeys⟩ := Option.ne_none_iff_exists'.mp (h.psks p hp)
  rw [get?_keys_peer] at hkey
  have hpair : pairKey 0 p = (0, p) := by simp [pairKey]
  refine ⟨m.asymmKey pubkey (.peer vpn p) key, m.symmKey vpn (0, p) keys, ?_, ?_⟩
  · show (m.peerKeys.mapEntries _).get? p = _
    rw [Dict.get?_mapEntries, hkey]
    rfl
  · show (m.presharedKeys.content.mapEntries _).get? _ = _
    rw [hpair, Dict.get?_mapEntries, hkeys]
    rfl

theorem Has.rootKey_ne_none (h : m.Has S) (hroot : S .root) (ids : List ℕ) :
    (m.material pubkey vpn ids).rootKey ≠ none := by
  have hkey := h.keys _ hroot
  rw [get?_keys_root] at hkey
  simpa [material] using hkey

theorem Has.assertKeys (h : m.Has S) (source : ℕ → String) (hids : ∀ k, Wanted peerIds k → S k) :
    m.assertKeys source peerIds = .ok m := by
  have hroot : m.assertRoot source = .ok m := by
    obtain ⟨key, hkey⟩ := Option.ne_none_iff_exists'.mp (h.keys .root (hids _ trivial))
    rw [get?_keys_root] at hkey
    rw [assertRoot, hkey]
  have hpeer : ∀ p ∈ peerIds, m.assertPeer source p = .ok m := by
    intro p hp
    obtain ⟨key, hkey⟩ := Option.ne_none_iff_exists'.mp (h.keys (.peer p) (hids _ hp))
    obtain ⟨keys, hkeys⟩ := Option.ne_none_iff_exists'.mp (h.psks p (hids _ hp))
    rw [get?_keys_peer] at hkey
    have hpair : pairKey 0 p = (0, p) := by simp [pairKey]
    have hget : m.presharedKeys.content.get? (pairKey 0 p) = some keys := by rw [hpair, hkeys]
    have hkeyed : m.assertPeerKey source p = .ok m := by rw [assertPeerKey, hkey]
    rw [assertPeer, hkeyed, Except.ok_bind, VpnKeysMap.assertPair, assertPair_of_get? hget]
    rfl
  rw [Keymat.assertKeys, hroot, Except.ok_bind]
  clear hids
  induction peerIds with
  | nil => rfl
  | cons p rest ih =>
    rw [List.foldlM_cons, hpeer p List.mem_cons_self]
    exact ih fun q hq => hpeer q (List.mem_cons_of_mem _ hq)

/-- Asserting keys keeps those there are, and adds only wanted ones. -/
theorem Has.of_assertKeys (h : m.Has S) (htidy : m.Tidy) (hsettled : m.Settled) {source : ℕ → String}
    (hok : m.assertKeys source peerIds = .ok m') :
    m'.Tidy ∧ m'.Settled ∧ m'.Has (fun k => S k ∨ Wanted peerIds k) ∧
      ∀ k, ¬ Wanted peerIds k → m.keys.get? k = none → m'.keys.get? k = none := by
  obtain ⟨m₁, hassert, htidy', hsettled', hkeys, hpsks⟩ := exists_assertKeys source htidy hsettled peerIds
  obtain rfl : m' = m₁ := Except.ok.inj (hok.symm.trans hassert)
  have hget : ∀ k, m.table.get? k false = none ↔ m.keys.get? k = none := fun k => by
    rw [get?_table htidy hsettled, Option.map_eq_none_iff]
  have hget' : ∀ k, m'.table.get? k false = none ↔ m'.keys.get? k = none := fun k => by
    rw [get?_table htidy' hsettled', Option.map_eq_none_iff]
  refine ⟨htidy', hsettled', ⟨fun k hk hnone => ?_, fun p hp hnone => ?_⟩, fun k hk hnone => ?_⟩
  · have hkey : m.table.get? k false ≠ none ∨ Wanted peerIds k :=
      hk.imp_left fun hS hnone => h.keys k hS ((hget k).mp hnone)
    exact hkeys.ne_none hkey ((hget' k).mpr hnone)
  · have hkey : m.presharedKeys.table.get? ((0, p), 0) false ≠ none ∨ WantedPair peerIds ((0, p), 0) :=
      hp.imp (fun hS hnone => h.psks p hS ((htidy.psks.get?_table hsettled.psks _).mp hnone)) fun hp => ⟨p, hp, rfl⟩
    exact hpsks.ne_none hkey ((htidy'.psks.get?_table hsettled'.psks _).mpr hnone)
  · rw [← hget', hkeys.other k hk, hget]
    exact hnone

/-! ### Saving -/

theorem get?_keys_load_save (h : m.Tidy) (hok : m.save = .ok m') (k : KeyPlace) :
    (load m'.rows).keys.get? k = m.keys.get? k := by
  ext o
  rw [(tidy_load _).keys, (settled_load _).after_iff, h.keys]
  exact (save_rows hok).1 _

theorem content_load_save (h : m.Tidy) (hok : m.save = .ok m') (p : ℕ × ℕ) :
    (load m'.rows).presharedKeys.content.get? p = m.presharedKeys.content.get? p := by
  ext keys
  rw [(tidy_load _).psks.content, h.psks.content]
  refine exists_congr fun o => and_congr_right fun _ => ?_
  rw [(settled_load _).psks.after_iff]
  exact (save_rows hok).2 _

theorem Has.load_save (h : m.Has S) (htidy : m.Tidy) (hok : m.save = .ok m') : (load m'.rows).Has S :=
  ⟨fun k hk => by rw [get?_keys_load_save htidy hok]; exact h.keys k hk,
    fun p hp => by rw [content_load_save htidy hok]; exact h.psks p hp⟩

/-- The key material with `prefer_dropped` has a key wherever there is an active one. -/
theorem Has.loadRekeyed {rows : KeymatRows} (h : (load rows).Has S) : (loadRekeyed rows).Has S := by
  refine ⟨fun k hk hnone => h.keys k hk ?_, fun p hp hnone => h.psks p hp ?_⟩
  · have hor := get?_loadRekeyed rows k
    rw [hnone, Option.map_none, eq_comm, Option.or_eq_none_iff] at hor
    rw [← Option.map_eq_none_iff (f := KeyObject.value), ← get?_table (tidy_load rows) (settled_load rows)]
    exact hor.2
  · have hor := VpnKeysMap.get?_loadRekeyed rows.psks (0, p)
    change ((VpnKeysMap.loadRekeyed rows.psks).content.get? (0, p)) = none at hnone
    rw [hnone, Option.map_none, eq_comm, Option.map_eq_none_iff, Option.or_eq_none_iff] at hor
    exact ((tidy_load rows).psks.get?_table (settled_load rows).psks _).mp hor.2

end Keymat

/-! ### Listing key material -/

namespace CentralizedVpnKeyMaterial

variable {k : CentralizedVpnKeyMaterial} {p : ℕ}

theorem avoids_lookup {α : Type} {v : Option α} (h : v ≠ none) : Except.Avoids Exn.IsKeyError (lookup v) := by
  obtain ⟨w, hw⟩ := Option.ne_none_iff_exists'.mp h
  exact .of_eq_ok (lookup_eq_ok_iff.mpr hw)

theorem avoids_getPeerMaterial (hroot : k.rootKey ≠ none) (hpeers : ∀ q ∈ k.peerIds, ∃ key psk, k.Holds q key psk)
    (hp : p ≠ 0 → ∃ key psk, k.Holds p key psk) (secret : Bool) :
    Except.Avoids Exn.IsKeyError (k.getPeerMaterial p secret) := by
  have hrootKey := avoids_lookup hroot
  have hkey : ∀ q, (∃ key psk, k.Holds q key psk) → Except.Avoids Exn.IsKeyError (lookup (k.peerKeys.get? q)) := by
    rintro q ⟨key, psk, hholds⟩
    exact .of_eq_ok (lookup_eq_ok_iff.mpr hholds.1)
  have hpsk : ∀ q, (∃ key psk, k.Holds q key psk) →
      Except.Avoids Exn.IsKeyError (lookup (k.presharedKeys.get? (pairKey 0 q))) := by
    rintro q ⟨key, psk, hholds⟩
    exact .of_eq_ok (lookup_eq_ok_iff.mpr hholds.2)
  unfold getPeerMaterial
  split_ifs with hzero
  · exact hrootKey.bind fun _ _ => .bind (.mapM fun q hq => hpsk q (hpeers q hq)) fun _ _ => .of_eq_ok rfl
  · exact .bind (.mapM fun q hq => hkey q (hpeers q hq)) fun _ _ => .of_eq_ok rfl
  · exact (hkey p (hp hzero)).bind fun _ _ => (hpsk p (hp hzero)).bind fun _ _ => .of_eq_ok rfl
  · exact hrootKey.bind fun _ _ => .of_eq_ok rfl

end CentralizedVpnKeyMaterial

theorem Keymat.Has.avoids_getPeerMaterial {m : Keymat} {S : KeyPlace → Prop} {pubkey : String → String} {vpn : Vpn}
    {ids : List ℕ} {p : ℕ} (h : m.Has S) (hroot : S .root) (hids : ∀ q ∈ ids, S (.peer q))
    (hp : p ≠ 0 → S (.peer p)) (secret : Bool) :
    Except.Avoids Exn.IsKeyError ((m.material pubkey vpn ids).getPeerMaterial p secret) :=
  CentralizedVpnKeyMaterial.avoids_getPeerMaterial (h.rootKey_ne_none _ _ hroot _)
    (fun q hq => h.exists_holds _ _ (hids q hq) _) (fun hzero => h.exists_holds _ _ (hp hzero) _) secret

/-! ### Centralized configurations -/

namespace CentralizedVpnConfig

/-- The keys that a configuration looks up are there. -/
structure KeysComplete (v : CentralizedVpnConfig) : Prop where
  rootKey : v.keymat.rootKey ≠ none
  peers : ∀ p ∈ v.peerIds, ∃ key psk, v.keymat.Holds p key psk

variable {v : CentralizedVpnConfig}

theorem avoids_add (a : IPAddress) (offset : ℕ) : Except.Avoids Exn.IsKeyError (a.add offset) := by
  cases a with
  | v4 a =>
    refine .bind ?_ fun _ _ => .of_eq_ok rfl
    unfold IPv4Address.add IPv4Address.ofNat
    split_ifs
    · exact .of_eq_ok rfl
    · exact .of_error (by simp [Exn.IsKeyError])
  | v6 a =>
    simp only [IPAddress.add]
    split_ifs
    · exact .of_eq_ok rfl
    · exact .of_error (by simp [Exn.IsKeyError])

theorem avoids_rootIp : Except.Avoids Exn.IsKeyError v.rootIp := avoids_add _ _

theorem avoids_peerIp (p : ℕ) : Except.Avoids Exn.IsKeyError (v.peerIp p) :=
  avoids_rootIp.bind fun _ _ => avoids_add _ _

theorem avoids_netmask : Except.Avoids Exn.IsKeyError v.settings.netmask := by
  unfold CentralizedVpnSettings.netmask
  split
  · unfold ipv4NetmaskToCidr
    split
    · exact .of_eq_ok rfl
    · exact .of_error (by simp [Exn.IsKeyError])
  · exact .of_error (by simp [Exn.IsKeyError])

theorem avoids_format (t : InterfaceTemplate) (i : ℕ) :
    Except.Avoids Exn.IsKeyError (t.format i) := by
  unfold InterfaceTemplate.format
  split_ifs
  · exact .of_eq_ok rfl
  · exact .of_error (by simp [Exn.IsKeyError])

theorem KeysComplete.exists_unpack (h : v.KeysComplete) {p : ℕ} (hp : p ∈ v.peerIds) (hpos : 0 < p) :
    ∃ keys, (v.keymat.getPeerMaterial p true >>= unpackMaterial) = .ok keys := by
  obtain ⟨key, psk, hholds⟩ := h.peers p hp
  exact ⟨(key, psk), (CentralizedVpnKeyMaterial.unpack_getPeerMaterial_eq_ok_iff hpos).mpr hholds⟩

theorem KeysComplete.avoids_rootKey (h : v.KeysComplete) : Except.Avoids Exn.IsKeyError v.rootKey := by
  obtain ⟨key, hkey⟩ := Option.ne_none_iff_exists'.mp h.rootKey
  exact .of_eq_ok (rootKey_eq_ok_iff.mpr hkey)

theorem KeysComplete.avoids_rootConfig (h : v.KeysComplete) (hpos : ∀ p ∈ v.peerIds, 0 < p) :
    Except.Avoids Exn.IsKeyError v.rootConfig := by
  unfold rootConfig
  refine (avoids_format _ _).bind fun _ _ => h.avoids_rootKey.bind fun _ _ =>
    avoids_rootIp.bind fun _ _ => avoids_netmask.bind fun _ _ => .bind (.mapM fun p hp => ?_) fun _ _ => .of_eq_ok rfl
  obtain ⟨keys, hkeys⟩ := h.exists_unpack hp (hpos p hp)
  unfold rootPeer
  exact .bind (.of_eq_ok hkeys) fun _ _ => (avoids_peerIp p).bind fun _ _ => .of_eq_ok rfl

theorem KeysComplete.avoids_peerConfig (h : v.KeysComplete) {p : ℕ} (hp : p ∈ v.peerIds) (hpos : 0 < p) :
    Except.Avoids Exn.IsKeyError (v.peerConfig p) := by
  obtain ⟨keys, hkeys⟩ := h.exists_unpack hp hpos
  unfold peerConfig
  exact .bind (.of_eq_ok hkeys) fun _ _ => (avoids_format _ _).bind fun _ _ =>
    (avoids_peerIp p).bind fun _ _ => avoids_netmask.bind fun _ _ => h.avoids_rootKey.bind fun _ _ =>
    avoids_rootIp.bind fun _ _ => .of_eq_ok rfl

theorem KeysComplete.avoids_build (h : v.KeysComplete) (hpos : ∀ p ∈ v.peerIds, 0 < p) :
    Except.Avoids Exn.IsKeyError v.build :=
  (h.avoids_rootConfig hpos).bind fun _ _ =>
    .bind (.mapM fun p hp => h.avoids_peerConfig hp (hpos p hp)) fun _ _ => .of_eq_ok rfl

end CentralizedVpnConfig

/-! ### Backbone configurations -/

namespace P2pVpnConfig

variable {source : KeySource} {vpn : P2pVpnConfig} {k k' : P2pVpnKeyMaterial} {a : ℕ}

theorem linkStep_eq_ok {acc acc' : List WireGuardConfig × P2pVpnKeyMaterial} {x : ℕ × Link}
    (h : vpn.linkStep source a acc x = .ok acc') :
    acc.2.Extends acc'.2 ∧ ∃ keys psk, acc'.2.Holds a x.1 keys psk := by
  obtain ⟨keys, psk, g, k₁, hassert, hext, hholds⟩ := P2pVpnKeyMaterial.assertPair_eq_ok source acc.2 a x.1
  unfold linkStep at h
  obtain ⟨_, -, h⟩ := Except.bind_eq_ok_iff.mp h
  obtain ⟨_, -, h⟩ := Except.bind_eq_ok_iff.mp h
  rw [hassert, Except.ok_bind] at h
  obtain ⟨_, -, h⟩ := Except.bind_eq_ok_iff.mp h
  obtain ⟨_, -, h⟩ := Except.bind_eq_ok_iff.mp h
  obtain ⟨_, -, h⟩ := Except.bind_eq_ok_iff.mp h
  obtain rfl := Except.ok.inj h
  exact ⟨hext, keys, psk, hholds⟩

theorem linkSteps_hold {l : List (ℕ × Link)} {acc acc' : List WireGuardConfig × P2pVpnKeyMaterial}
    (h : l.foldlM (vpn.linkStep source a) acc = .ok acc') :
    acc.2.Extends acc'.2 ∧ ∀ x ∈ l, ∃ keys psk, acc'.2.Holds a x.1 keys psk := by
  induction l generalizing acc with
  | nil =>
    obtain rfl := Except.ok.inj h
    exact ⟨.refl _, by simp⟩
  | cons x rest ih =>
    rw [List.foldlM_cons] at h
    obtain ⟨acc₁, hstep, hrest⟩ := Except.bind_eq_ok_iff.mp h
    obtain ⟨hext, keys, psk, hholds⟩ := linkStep_eq_ok hstep
    obtain ⟨hext', hall⟩ := ih hrest
    refine ⟨hext.trans hext', fun y hy => ?_⟩
    rcases List.mem_cons.mp hy with rfl | hy
    · exact ⟨keys, psk, hholds.extends hext'⟩
    · exact hall y hy

theorem peerConfig_holds {cfgs : List WireGuardConfig} (h : vpn.peerConfig source a k = .ok (cfgs, k')) :
    k.Extends k' ∧ vpn.HoldsLinks k' a := by
  unfold peerConfig at h
  cases hget : vpn.deployment.get? a with
  | none =>
    rw [hget] at h
    obtain rfl := (Prod.mk.inj (Except.ok.inj h)).2
    refine ⟨.refl k, fun p b hp => ?_⟩
    rw [hget] at hp
    cases hp
  | some p =>
    rw [hget] at h
    obtain ⟨hext, hall⟩ := linkSteps_hold h
    refine ⟨hext, fun p' b hp hb => ?_⟩
    rw [hget, Option.some.injEq] at hp
    subst hp
    obtain ⟨x, hx, rfl⟩ := List.mem_map.mp hb
    exact hall x hx

theorem HoldsLinks.extends (h : vpn.HoldsLinks k a) (hext : k.Extends k') : vpn.HoldsLinks k' a := by
  intro p b hp hb
  obtain ⟨keys, psk, hholds⟩ := h p b hp hb
  exact ⟨keys, psk, hholds.extends hext⟩

theorem assertKeys_holds (h : vpn.assertKeys source k = .ok k') :
    k.Extends k' ∧ ∀ a ∈ vpn.peerIds, vpn.HoldsLinks k' a := by
  unfold assertKeys at h
  generalize vpn.peerIds = l at h
  induction l generalizing k with
  | nil =>
    obtain rfl := Except.ok.inj h
    exact ⟨.refl _, by simp⟩
  | cons a rest ih =>
    rw [List.foldlM_cons] at h
    obtain ⟨k₁, hstep, hrest⟩ := Except.bind_eq_ok_iff.mp h
    obtain ⟨⟨cfgs, k₂⟩, hpeer, heq⟩ := Except.bind_eq_ok_iff.mp hstep
    obtain rfl := Except.ok.inj heq
    obtain ⟨hext, hholds⟩ := peerConfig_holds hpeer
    obtain ⟨hext', hall⟩ := ih hrest
    refine ⟨hext.trans hext', fun b hb => ?_⟩
    rcases List.mem_cons.mp hb with rfl | hb
    · exact hholds.extends hext'
    · exact hall b hb

theorem AllLinkable.avoids_peerConfig (h : vpn.AllLinkable) (source : KeySource) (a : ℕ) (k : P2pVpnKeyMaterial) :
    Except.Avoids Exn.IsKeyError (vpn.peerConfig source a k) := by
  unfold peerConfig
  cases hget : vpn.deployment.get? a with
  | none => exact .of_eq_ok rfl
  | some p =>
    refine .foldlM (fun acc x hx => ?_) _
    obtain ⟨linkB, endpoint, endpointB, hlink⟩ := h.entries hget x hx
    obtain ⟨q, hq, hlinkB⟩ := hlink.entry
    obtain ⟨keys, psk, g, k₁, hassert, -, -⟩ := P2pVpnKeyMaterial.assertPair_eq_ok source acc.2 a x.1
    simp only [linkStep, pyGetItem_eq_ok hq, pyGetItem_eq_ok hlinkB, pyGetItem_eq_ok hlink.endpoint,
      pyGetItem_eq_ok hlink.endpointB, hassert, Except.ok_bind]
    exact (CentralizedVpnConfig.avoids_format _ _).bind fun _ _ => .of_eq_ok rfl

theorem AllLinkable.avoids_assertKeys (h : vpn.AllLinkable) (source : KeySource) (k : P2pVpnKeyMaterial) :
    Except.Avoids Exn.IsKeyError (vpn.assertKeys source k) :=
  .foldlM (fun k a _ => (h.avoids_peerConfig source a k).bind fun _ _ => .of_eq_ok rfl) k

end P2pVpnConfig

end Uno
