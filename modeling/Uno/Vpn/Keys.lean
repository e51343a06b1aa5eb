import Uno.Core.Paired
import Uno.Lib.Fold

/-!
# Key material

The rows of the tables `asymm_keys` and `symm_keys`, and the key material of a centralized VPN: the
key pair of its root, one key pair for each peer, and one preshared key for each peer with the root.

A key id is the path `{uvn}:vpn:…` that names the VPN, followed by the place of the key in it.
-/

namespace Uno

/-- The VPNs of a UVN. -/
inductive Vpn where
  | root
  | particles (cell : ℕ)
  | backbone
  deriving DecidableEq

/-- The `key_id` of a row of `asymm_keys`. -/
inductive AsymmKeyId where
  /-- `{prefix}:root`. -/
  | root (vpn : Vpn)
  /-- `{prefix}:peer:{id}`. -/
  | peer (vpn : Vpn) (id : ℕ)
  /-- `{prefix}:pair:{pair}:{i}`. -/
  | pair (vpn : Vpn) (pair : ℕ × ℕ) (i : ℕ)
  deriving DecidableEq

/-- The `key_id` of a row of `symm_keys`: `{prefix}:psks:{pair}`. -/
structure SymmKeyId where
  vpn : Vpn
  pair : ℕ × ℕ
  deriving DecidableEq

/-- `WireGuardKeyPair`. The private half is absent from a public export. -/
structure AsymmKey where
  keyId : AsymmKeyId
  publicKey : String
  privateKey : Option String
  dropped : Bool
  deriving DecidableEq

/-- `WireGuardPsk`. -/
structure SymmKey where
  keyId : SymmKeyId
  value : Option String
  dropped : Bool
  deriving DecidableEq

/-- What `get_peer_material` lists. -/
inductive Material where
  | key (key : AsymmKey)
  | psk (psk : SymmKey)
  deriving DecidableEq

/-- `key, psk = material`. -/
def unpackMaterial : List Material → Result (AsymmKey × SymmKey)
  | [.key key, .psk psk] => .ok (key, psk)
  | _ => .error (.value "not enough values to unpack")

structure CentralizedVpnKeyMaterial where
  vpn : Vpn
  peerIds : List ℕ
  rootKey : Option AsymmKey
  peerKeys : Dict ℕ AsymmKey
  presharedKeys : PairedValuesMap SymmKey

namespace CentralizedVpnKeyMaterial

variable (k : CentralizedVpnKeyMaterial)

/-- `except KeyError: raise MissingKeyMaterial`. -/
def lookup {α : Type} (v : Option α) : Result α :=
  match v with
  | some v => .ok v
  | none => .error .missingKeyMaterial

def getPeerMaterial (peer : ℕ) (secret : Bool) : Result (List Material) := do
  if peer = 0 then
    if secret then
      let rootKey ← lookup k.rootKey
      let psks ← k.peerIds.mapM fun p => lookup (k.presharedKeys.get? (PairedValuesMap.pairKey 0 p))
      .ok (.key rootKey :: psks.map .psk)
    else
      let keys ← k.peerIds.mapM fun p => lookup (k.peerKeys.get? p)
      .ok (keys.map .key)
  else
    if secret then
      let key ← lookup (k.peerKeys.get? peer)
      let psk ← lookup (k.presharedKeys.get? (PairedValuesMap.pairKey 0 peer))
      .ok [.key key, .psk psk]
    else
      let rootKey ← lookup k.rootKey
      .ok [.key rootKey]

/-- The keys of a peer. -/
def Holds (peer : ℕ) (key : AsymmKey) (psk : SymmKey) : Prop :=
  k.peerKeys.get? peer = some key ∧ k.presharedKeys.get? (PairedValuesMap.pairKey 0 peer) = some psk

variable {k}

theorem lookup_eq_ok_iff {α : Type} {o : Option α} {v : α} : lookup o = .ok v ↔ o = some v := by
  cases o with
  | none => simp [lookup]
  | some w => simp [lookup]

theorem getPeerMaterial_peer_eq_ok_iff {peer : ℕ} (hpeer : 0 < peer) {material : List Material} :
    k.getPeerMaterial peer true = .ok material ↔
      ∃ key psk, k.Holds peer key psk ∧ material = [.key key, .psk psk] := by
  rw [getPeerMaterial, if_neg hpeer.ne', if_pos rfl]
  simp only [Except.bind_eq_ok_iff, lookup_eq_ok_iff, Except.ok.injEq]
  constructor
  · rintro ⟨key, hkey, psk, hpsk, rfl⟩
    exact ⟨key, psk, ⟨hkey, hpsk⟩, rfl⟩
  · rintro ⟨key, psk, ⟨hkey, hpsk⟩, rfl⟩
    exact ⟨key, hkey, psk, hpsk, rfl⟩

theorem unpack_getPeerMaterial_eq_ok_iff {peer : ℕ} (hpeer : 0 < peer) {key : AsymmKey} {psk : SymmKey} :
    (k.getPeerMaterial peer true >>= unpackMaterial) = .ok (key, psk) ↔ k.Holds peer key psk := by
  rw [Except.bind_eq_ok_iff]
  constructor
  · rintro ⟨material, hmaterial, hunpack⟩
    obtain ⟨key', psk', hholds, rfl⟩ := (getPeerMaterial_peer_eq_ok_iff hpeer).mp hmaterial
    cases hunpack
    exact hholds
  · intro hholds
    exact ⟨_, (getPeerMaterial_peer_eq_ok_iff hpeer).mpr ⟨key, psk, hholds, rfl⟩, rfl⟩

end CentralizedVpnKeyMaterial

end Uno
