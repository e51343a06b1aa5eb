import Uno.Registry.Confidentiality
import Uno.Vpn.KeyLoad
import Uno.Vpn.ReadOnly

/-!
# The keys that an agent reads

The agent of a cell loads the key tables of its package into key material of its own. At every place it finds what
the export shows of the key there (`visibleKey`): the cell's own keys with their private halves, those of its
neighbours, of the registry and of its particles without them. Rows are told apart by the places their key ids name.
-/

namespace Uno

open PairedValuesMap

/-! ### Loading the tables of a package -/

namespace PackageKeys

variable (db : PackageKeys)

/-- The active key pairs of a kind, by their places. -/
def activeKeys {ι : Type} (place : AsymmKeyId → Option ι) : List (ι × AsymmKey) :=
  db.asymmKeys.filterMap fun r => if r.key.dropped then none else (place r.key.keyId).map fun i => (i, r.key)

/-- The active preshared keys of a VPN, by their pairs. -/
def activePsks (vpn : Vpn) : List ((ℕ × ℕ) × SymmKey) :=
  db.symmKeys.filterMap fun r =>
    if r.key.dropped ∨ r.key.keyId.vpn ≠ vpn then none else some (r.key.keyId.pair, r.key)

/-- `{prefix}:root`. -/
def rootPlace (vpn : Vpn) : AsymmKeyId → Option Unit
  | .root v => if v = vpn then some () else none
  | _ => none

/-- `{prefix}:peer:{id}`. -/
def peerPlace (vpn : Vpn) : AsymmKeyId → Option ℕ
  | .peer v p => if v = vpn then some p else none
  | _ => none

/-- `{prefix}:pair:{pair}:{i}`. -/
def endPlace (vpn : Vpn) : AsymmKeyId → Option ((ℕ × ℕ) × ℕ)
  | .pair v pair i => if v = vpn then some (pair, i) else none
  | _ => none

/-- `load_root_key`. -/
def rootKey (vpn : Vpn) : Option AsymmKey := (db.activeKeys (rootPlace vpn)).head?.map Prod.snd

/-- `load_peer_keys`. -/
def peerKeys (vpn : Vpn) : Dict ℕ AsymmKey := (db.activeKeys (peerPlace vpn)).foldl (fun d e => d.set e.1 e.2) ∅

/-- `load_preshared_keys`. -/
def presharedKeys (vpn : Vpn) : PairedValuesMap SymmKey := (db.activePsks vpn).foldl (fun d e => d.set e.1 e.2) ∅

/-- `_load_keys` of the key pairs of links. -/
def pairKeys (vpn : Vpn) : PairedValuesMap (List AsymmKey) :=
  (db.activeKeys (endPlace vpn)).foldl (fun d e => d.set e.1.1 (insertAt ((d.get? e.1.1).getD []) e.1.2 e.2)) ∅

/-- The key material of a centralized VPN. -/
def keymat (vpn : Vpn) (peerIds : List ℕ) : CentralizedVpnKeyMaterial where
  vpn := vpn
  peerIds := peerIds
  rootKey := db.rootKey vpn
  peerKeys := db.peerKeys vpn
  presharedKeys := db.presharedKeys vpn

end PackageKeys

/-- A private half that is absent is read as the empty text, which `wg` never generates. -/
def AsymmKey.toKeyPair (key : AsymmKey) : WireGuardKeyPair := ⟨key.privateKey.getD "", key.publicKey⟩

/-- The key of one end of a link. -/
def endKeyPair (keys : List AsymmKey) (i : ℕ) : WireGuardKeyPair := (keys[i]?.map AsymmKey.toKeyPair).getD ⟨"", ""⟩

/-- The key material of the backbone. -/
def PackageKeys.backboneKeymat (db : PackageKeys) : P2pVpnKeyMaterial where
  pairKeys := (db.pairKeys .backbone).map fun keys => (endKeyPair keys 0, endKeyPair keys 1)
  presharedKeys := (db.presharedKeys .backbone).map fun key => key.value.getD ""
  generated := 0

/-! ### What the export shows of a key -/

namespace UvnKeys

instance (k : UvnKeys) (cell : ℕ) (enableParticlesVpn : Bool) : DecidablePred (k.OwnKey cell enableParticlesVpn) :=
  fun i => inferInstanceAs (Decidable (i = .peer .root cell ∨ (∃ pair ∈ k.pairsOf cell, i = ownHalf cell pair) ∨ _))

instance (k : UvnKeys) (cell : ℕ) (enableParticlesVpn : Bool) : DecidablePred (k.PeerKey cell enableParticlesVpn) :=
  fun i => inferInstanceAs (Decidable (i = .root .root ∨ (∃ pair ∈ k.pairsOf cell, i = otherHalf cell pair) ∨ _))

instance (k : UvnKeys) (cell : ℕ) (enableParticlesVpn : Bool) : DecidablePred (k.OwnPsk cell enableParticlesVpn) :=
  fun i => inferInstanceAs (Decidable (i = ⟨.root, (0, cell)⟩ ∨ _))

variable (k : UvnKeys) (cell : ℕ) (enableParticlesVpn : Bool)

/-- A key pair as it is in the package of a cell. -/
def visibleKey (i : AsymmKeyId) : Option AsymmKey :=
  if k.OwnKey cell enableParticlesVpn i then k.asymmAt i
  else if k.PeerKey cell enableParticlesVpn i then (k.asymmAt i).map (AsymmKey.serialize true)
  else none

def visiblePsk (i : SymmKeyId) : Option SymmKey := if k.OwnPsk cell enableParticlesVpn i then k.symmAt i else none

/-- The key ids of the key pairs in the package of a cell. -/
def keyIds : List AsymmKeyId :=
  (k.privatePlaces cell enableParticlesVpn).filterMap Place.asymm? ++ k.publicPlaces cell enableParticlesVpn

/-- Both keys of a link of the cell, that of the other end without its private half. -/
def visiblePair (pair : ℕ × ℕ) : Option (AsymmKey × AsymmKey) :=
  if HasEnd pair cell then (k.backbone.pairKeys.get? pair).map fun keys =>
    if pair.1 = cell then (keys.1, keys.2.serialize true) else (keys.1.serialize true, keys.2)
  else none

variable {k cell enableParticlesVpn}

theorem mem_keyIds {i : AsymmKeyId} : i ∈ k.keyIds cell enableParticlesVpn ↔
    k.OwnKey cell enableParticlesVpn i ∨ k.PeerKey cell enableParticlesVpn i := by
  rw [keyIds, List.mem_append, mem_privatePlaces_asymm, mem_publicPlaces]

theorem Valid.not_peerKey (h : k.Valid) {i : AsymmKeyId} (hown : k.OwnKey cell enableParticlesVpn i) :
    ¬ k.PeerKey cell enableParticlesVpn i := fun hpeer =>
  (List.nodup_append'.mp (h.nodup_asymm cell enableParticlesVpn)).2.2 (mem_privatePlaces_asymm.mpr hown)
    (mem_publicPlaces.mpr hpeer)

theorem visibleKey_own {i : AsymmKeyId} (hown : k.OwnKey cell enableParticlesVpn i) :
    k.visibleKey cell enableParticlesVpn i = k.asymmAt i := if_pos hown

theorem Valid.visibleKey_peer (h : k.Valid) {i : AsymmKeyId} (hpeer : k.PeerKey cell enableParticlesVpn i) :
    k.visibleKey cell enableParticlesVpn i = (k.asymmAt i).map (AsymmKey.serialize true) := by
  rw [visibleKey, if_neg fun hown => h.not_peerKey hown hpeer, if_pos hpeer]

theorem mem_keyIds_of_visibleKey {i : AsymmKeyId} {key : AsymmKey}
    (h : k.visibleKey cell enableParticlesVpn i = some key) : i ∈ k.keyIds cell enableParticlesVpn := by
  rw [mem_keyIds]
  unfold visibleKey at h
  split_ifs at h with hown hpeer
  · exact .inl hown
  · exact .inr hpeer

theorem Valid.of_visibleKey (h : k.Valid) {i : AsymmKeyId} {key : AsymmKey}
    (hkey : k.visibleKey cell enableParticlesVpn i = some key) : key.keyId = i ∧ key.dropped = false := by
  unfold visibleKey at hkey
  split_ifs at hkey
  · exact ⟨(h.asymm i key hkey).1, (h.asymm i key hkey).2.1⟩
  · obtain ⟨full, hfull, rfl⟩ := Option.map_eq_some_iff.mp hkey
    exact ⟨(h.asymm i full hfull).1, (h.asymm i full hfull).2.1⟩

theorem Valid.asymmKeys_eq (h : k.Valid) : (k.packageRows cell enableParticlesVpn).asymmKeys =
    (k.keyIds cell enableParticlesVpn).filterMap fun i =>
      (k.visibleKey cell enableParticlesVpn i).map (KeyRow.mk (k.asymmId i)) := by
  rw [keyIds, List.filterMap_append, packageRows, List.map_filterMap]
  show _ ++ _ = _ ++ _
  refine congrArg₂ (· ++ ·) ?_ ?_
  · apply List.filterMap_congr
    intro i hi
    rw [visibleKey_own (mem_privatePlaces_asymm.mp hi)]
    rfl
  · apply List.filterMap_congr
    intro i hi
    rw [h.visibleKey_peer (mem_publicPlaces.mp hi), asymmRowAt, Option.map_map, Option.map_map]
    rfl

/-! ### What the agent reads -/

theorem Valid.activeKeys_eq {ι : Type} (h : k.Valid) (place : AsymmKeyId → Option ι) :
    (k.packageRows cell enableParticlesVpn).activeKeys place =
      (k.keyIds cell enableParticlesVpn).filterMap fun i =>
        (k.visibleKey cell enableParticlesVpn i).bind fun key => (place i).map fun j => (j, key) := by
  rw [PackageKeys.activeKeys, h.asymmKeys_eq, List.filterMap_filterMap]
  apply List.filterMap_congr
  intro i _
  cases hkey : k.visibleKey cell enableParticlesVpn i with
  | none => rfl
  | some key =>
    obtain ⟨rfl, hactive⟩ := h.of_visibleKey hkey
    rw [Option.map_some, Option.bind_some, Option.bind_some, if_neg (by simp [hactive])]

theorem Valid.mem_activeKeys {ι : Type} (h : k.Valid) {place : AsymmKeyId → Option ι} {e : ι × AsymmKey} :
    e ∈ (k.packageRows cell enableParticlesVpn).activeKeys place ↔
      ∃ i, place i = some e.1 ∧ k.visibleKey cell enableParticlesVpn i = some e.2 := by
  rw [h.activeKeys_eq, List.mem_filterMap]
  constructor
  · rintro ⟨i, -, hentry⟩
    obtain ⟨key, hkey, hentry⟩ := Option.bind_eq_some_iff.mp hentry
    obtain ⟨j, hj, rfl⟩ := Option.map_eq_some_iff.mp hentry
    exact ⟨i, hj, hkey⟩
  · rintro ⟨i, hplace, hkey⟩
    exact ⟨i, mem_keyIds_of_visibleKey hkey, by rw [hkey, Option.bind_some, hplace]; rfl⟩

theorem Valid.nodup_activeKeys {ι : Type} (h : k.Valid) {place : AsymmKeyId → Option ι}
    (hinj : ∀ i i' j, place i = some j → place i' = some j → i = i') :
    (((k.packageRows cell enableParticlesVpn).activeKeys place).map Prod.fst).Nodup := by
  rw [h.activeKeys_eq, List.map_filterMap]
  refine (h.nodup_asymm cell enableParticlesVpn).filterMap fun i i' j hi hi' => ?_
  obtain ⟨e, he, rfl⟩ := Option.map_eq_some_iff.mp hi
  obtain ⟨key, -, he⟩ := Option.bind_eq_some_iff.mp he
  obtain ⟨j, hj, rfl⟩ := Option.map_eq_some_iff.mp he
  obtain ⟨e', he', heq⟩ := Option.map_eq_some_iff.mp hi'
  obtain ⟨key', -, he'⟩ := Option.bind_eq_some_iff.mp he'
  obtain ⟨j', hj', rfl⟩ := Option.map_eq_some_iff.mp he'
  obtain rfl : j' = j := heq
  exact hinj i i' j' hj hj'

theorem rootPlace_eq_some_iff {vpn : Vpn} {i : AsymmKeyId} {u : Unit} :
    PackageKeys.rootPlace vpn i = some u ↔ i = .root vpn := by
  cases i with
  | root v => simp [PackageKeys.rootPlace]
  | peer v p => simp [PackageKeys.rootPlace]
  | pair v pair n => simp [PackageKeys.rootPlace]

theorem peerPlace_eq_some_iff {vpn : Vpn} {i : AsymmKeyId} {p : ℕ} :
    PackageKeys.peerPlace vpn i = some p ↔ i = .peer vpn p := by
  cases i with
  | root v => simp [PackageKeys.peerPlace]
  | peer v p => simp [PackageKeys.peerPlace]
  | pair v pair n => simp [PackageKeys.peerPlace]

theorem endPlace_eq_some_iff {vpn : Vpn} {i : AsymmKeyId} {e : (ℕ × ℕ) × ℕ} :
    PackageKeys.endPlace vpn i = some e ↔ i = .pair vpn e.1 e.2 := by
  cases i with
  | root v => simp [PackageKeys.endPlace]
  | peer v p => simp [PackageKeys.endPlace]
  | pair v pair n => simp [PackageKeys.endPlace, Prod.ext_iff]

theorem Valid.rootKey_eq (h : k.Valid) (vpn : Vpn) : (k.packageRows cell enableParticlesVpn).rootKey vpn =
    k.visibleKey cell enableParticlesVpn (.root vpn) := by
  have hmem : ∀ e, e ∈ (k.packageRows cell enableParticlesVpn).activeKeys (PackageKeys.rootPlace vpn) ↔
      k.visibleKey cell enableParticlesVpn (.root vpn) = some e.2 := by
    intro e
    rw [h.mem_activeKeys]
    simp only [rootPlace_eq_some_iff, exists_eq_left]
  rw [PackageKeys.rootKey]
  cases hlist : (k.packageRows cell enableParticlesVpn).activeKeys (PackageKeys.rootPlace vpn) with
  | nil =>
    rw [hlist] at hmem
    cases hkey : k.visibleKey cell enableParticlesVpn (.root vpn) with
    | none => rfl
    | some key => exact absurd ((hmem ((), key)).mpr hkey) List.not_mem_nil
  | cons e rest =>
    rw [(hmem e).mp (hlist ▸ List.mem_cons_self)]
    rfl

theorem Valid.get?_peerKeys (h : k.Valid) (vpn : Vpn) (p : ℕ) :
    ((k.packageRows cell enableParticlesVpn).peerKeys vpn).get? p =
      k.visibleKey cell enableParticlesVpn (.peer vpn p) := by
  refine get?_foldl_places (f := fun p => k.visibleKey cell enableParticlesVpn (.peer vpn p))
    (h.nodup_activeKeys fun i i' j hi hi' => ?_) (fun j key => ?_) p
  · rw [peerPlace_eq_some_iff.mp hi, peerPlace_eq_some_iff.mp hi']
  · rw [h.mem_activeKeys]
    simp only [peerPlace_eq_some_iff, exists_eq_left]

theorem Valid.get?_presharedKeys (h : k.Valid) (vpn : Vpn) (pair : ℕ × ℕ) :
    ((k.packageRows cell enableParticlesVpn).presharedKeys vpn).get? pair =
      k.visiblePsk cell enableParticlesVpn ⟨vpn, pair⟩ := by
  have hlist : (k.packageRows cell enableParticlesVpn).activePsks vpn =
      ((k.privatePlaces cell enableParticlesVpn).filterMap Place.symm?).filterMap fun i =>
        (k.symmAt i).bind fun key => if i.vpn = vpn then some (i.pair, key) else none := by
    rw [PackageKeys.activePsks, packageRows, List.filterMap_filterMap]
    apply List.filterMap_congr
    intro i _
    rw [symmRowAt, Option.bind_map]
    apply Option.bind_congr
    intro key hkey
    obtain ⟨rfl, hactive, -⟩ := h.symm i key hkey
    rw [Function.comp_apply]
    by_cases hvpn : key.keyId.vpn = vpn
    · rw [if_pos hvpn, if_neg (by simp [hactive, hvpn])]
    · rw [if_neg hvpn, if_pos (.inr hvpn)]
  have hmem : ∀ pair key, (pair, key) ∈ (k.packageRows cell enableParticlesVpn).activePsks vpn ↔
      k.visiblePsk cell enableParticlesVpn ⟨vpn, pair⟩ = some key := by
    intro pair key
    rw [hlist, List.mem_filterMap, visiblePsk]
    constructor
    · rintro ⟨i, hi, hentry⟩
      obtain ⟨key', hkey, hentry⟩ := Option.bind_eq_some_iff.mp hentry
      split_ifs at hentry with hvpn
      obtain ⟨rfl, rfl⟩ := Prod.mk.inj (Option.some.inj hentry)
      subst hvpn
      rw [if_pos (mem_privatePlaces_symm.mp hi)]
      exact hkey
    · intro hkey
      split_ifs at hkey with hown
      exact ⟨_, mem_privatePlaces_symm.mpr hown, by rw [hkey, Option.bind_some, if_pos rfl]⟩
  refine get?_foldl_places (f := fun pair => k.visiblePsk cell enableParticlesVpn ⟨vpn, pair⟩) ?_ hmem pair
  rw [hlist, List.map_filterMap]
  refine (h.nodup_symm cell enableParticlesVpn).filterMap fun i i' pair hi hi' => ?_
  obtain ⟨e, he, rfl⟩ := Option.map_eq_some_iff.mp hi
  obtain ⟨key, -, he⟩ := Option.bind_eq_some_iff.mp he
  obtain ⟨e', he', heq⟩ := Option.map_eq_some_iff.mp hi'
  obtain ⟨key', -, he'⟩ := Option.bind_eq_some_iff.mp he'
  split_ifs at he he' with hvpn hvpn'
  obtain rfl := Option.some.inj he
  obtain rfl := Option.some.inj he'
  obtain ⟨v, pair⟩ := i
  obtain ⟨v', pair'⟩ := i'
  rw [show v = v' from hvpn.trans hvpn'.symm, show pair' = pair from heq]

/-! ### Links -/

theorem mem_pairsOf {pair : ℕ × ℕ} :
    pair ∈ k.pairsOf cell ↔ (∃ keys, k.backbone.pairKeys.get? pair = some keys) ∧ HasEnd pair cell := by
  rw [pairsOf, List.mem_filter, Dict.mem_keys_iff, decide_eq_true_eq]

theorem visibleKey_of_none {i : AsymmKeyId} (h : k.asymmAt i = none) : k.visibleKey cell enableParticlesVpn i = none := by
  unfold visibleKey
  rw [h]
  split_ifs <;> rfl

theorem not_visible_of_not_hasEnd {pair : ℕ × ℕ} (h : ¬ HasEnd pair cell) (i : ℕ) :
    k.visibleKey cell enableParticlesVpn (.pair .backbone pair i) = none := by
  have hown : ¬ k.OwnKey cell enableParticlesVpn (.pair .backbone pair i) := by
    rintro (heq | ⟨pair', hpair', heq⟩ | ⟨-, heq⟩)
    · cases heq
    · obtain ⟨-, rfl, -⟩ := AsymmKeyId.pair.inj heq
      exact h (mem_pairsOf.mp hpair').2
    · cases heq
  have hpeer : ¬ k.PeerKey cell enableParticlesVpn (.pair .backbone pair i) := by
    rintro (heq | ⟨pair', hpair', heq⟩ | ⟨-, _, -, heq⟩)
    · cases heq
    · obtain ⟨-, rfl, -⟩ := AsymmKeyId.pair.inj heq
      exact h (mem_pairsOf.mp hpair').2
    · cases heq
  rw [visibleKey, if_neg hown, if_neg hpeer]

theorem Valid.ends_visiblePair (h : k.Valid) (pair : ℕ × ℕ) (i : ℕ) :
    ends (k.visiblePair cell pair) i = k.visibleKey cell enableParticlesVpn (.pair .backbone pair i) := by
  unfold visiblePair
  by_cases hend : HasEnd pair cell
  · rw [if_pos hend]
    cases hget : k.backbone.pairKeys.get? pair with
    | none =>
      have hnone : k.asymmAt (.pair .backbone pair i) = none := by
        rcases i with _ | _ | i
        · rw [asymmAt, hget, Option.map_none]
        · rw [asymmAt, hget, Option.map_none]
        · rfl
      rw [visibleKey_of_none hnone]
      rcases i with _ | _ | i
      · rfl
      · rfl
      · rfl
    | some keys =>
      have hmem : pair ∈ k.pairsOf cell := mem_pairsOf.mpr ⟨⟨keys, hget⟩, hend⟩
      have hown : k.OwnKey cell enableParticlesVpn (ownHalf cell pair) := .inr (.inl ⟨pair, hmem, rfl⟩)
      have hpeer : k.PeerKey cell enableParticlesVpn (otherHalf cell pair) := .inr (.inl ⟨pair, hmem, rfl⟩)
      have hfst : k.asymmAt (.pair .backbone pair 0) = some keys.1 := by rw [asymmAt, hget, Option.map_some]
      have hsnd : k.asymmAt (.pair .backbone pair 1) = some keys.2 := by rw [asymmAt, hget, Option.map_some]
      rw [Option.map_some]
      by_cases hfirst : pair.1 = cell
      · rw [ownHalf, if_pos hfirst] at hown
        rw [otherHalf, if_pos hfirst] at hpeer
        rw [if_pos hfirst]
        rcases i with _ | _ | i
        · rw [visibleKey_own hown, hfst]; rfl
        · rw [h.visibleKey_peer hpeer, hsnd]; rfl
        · rw [visibleKey_of_none rfl]; rfl
      · rw [ownHalf, if_neg hfirst] at hown
        rw [otherHalf, if_neg hfirst] at hpeer
        rw [if_neg hfirst]
        rcases i with _ | _ | i
        · rw [h.visibleKey_peer hpeer, hfst]; rfl
        · rw [visibleKey_own hown, hsnd]; rfl
        · rw [visibleKey_of_none rfl]; rfl
  · rw [if_neg hend, not_visible_of_not_hasEnd hend]
    rcases i with _ | _ | i
    · rfl
    · rfl
    · rfl

theorem Valid.get?_pairKeys (h : k.Valid) (pair : ℕ × ℕ) :
    ((k.packageRows cell enableParticlesVpn).pairKeys .backbone).get? pair =
      (k.visiblePair cell pair).map fun keys => [keys.1, keys.2] := by
  have hnodup : (((k.packageRows cell enableParticlesVpn).activeKeys (PackageKeys.endPlace .backbone)).map Prod.fst).Nodup :=
    h.nodup_activeKeys fun i i' j hi hi' => by rw [endPlace_eq_some_iff.mp hi, endPlace_eq_some_iff.mp hi']
  have hupdate := Dict.get?_foldl_update
    (fun (o : Option (List AsymmKey)) (e : ((ℕ × ℕ) × ℕ) × AsymmKey) => insertAt (o.getD []) e.1.2 e.2) (fun e => e.1.1)
    ((k.packageRows cell enableParticlesVpn).activeKeys (PackageKeys.endPlace .backbone)) ∅ pair
  refine hupdate.trans (foldl_insertAt pair ((List.Nodup.of_map _ hnodup).filter _) fun e => ?_)
  rw [List.mem_filter, decide_eq_true_eq, and_comm, and_congr_right_iff]
  rintro rfl
  have hends : ends (k.visiblePair cell e.1.1) e.1.2 =
      k.visibleKey cell enableParticlesVpn (.pair .backbone e.1.1 e.1.2) := h.ends_visiblePair _ _
  rw [h.mem_activeKeys, hends]
  simp only [endPlace_eq_some_iff, exists_eq_left]

/-- The keys of a link of the cell, as its agent holds them: its own key pair, and the public key of the other end. -/
theorem Valid.holds_backboneKeymat (h : k.Valid) {b : ℕ} (hne : cell ≠ b) {keys : AsymmKey × AsymmKey} {psk : SymmKey}
    (hkeys : k.backbone.pairKeys.get? (pairKey cell b) = some keys)
    (hpsk : k.backbone.presharedKeys.get? (pairKey cell b) = some psk) :
    ∃ keys', (k.packageRows cell enableParticlesVpn).backboneKeymat.Holds cell b keys' (psk.value.getD "") ∧
      pick cell b cell keys' = (pick cell b cell keys).toKeyPair ∧
      (pick cell b b keys').publicKey = (pick cell b b keys).publicKey := by
  have hend : HasEnd (pairKey cell b) cell := by
    unfold pairKey
    split_ifs
    · exact .inr rfl
    · exact .inl rfl
  have hown : k.OwnPsk cell enableParticlesVpn ⟨.backbone, pairKey cell b⟩ :=
    .inr (.inl ⟨_, Dict.mem_keys_iff.mpr ⟨psk, hpsk⟩, hend, rfl⟩)
  have hpsk' : ((k.packageRows cell enableParticlesVpn).presharedKeys .backbone).get? (pairKey cell b) = some psk := by
    rw [h.get?_presharedKeys, visiblePsk, if_pos hown]
    exact hpsk
  obtain ⟨vis, hvis, hcell, hother⟩ : ∃ vis, k.visiblePair cell (pairKey cell b) = some vis ∧
      pick cell b cell vis = pick cell b cell keys ∧ (pick cell b b vis).publicKey = (pick cell b b keys).publicKey := by
    refine ⟨_, by rw [visiblePair, if_pos hend, hkeys, Option.map_some], ?_, ?_⟩
    · rw [pick, pick]
      split_ifs <;> rfl
    · have hotherEnd : (pairKey cell b).1 = b ↔ (pairKey cell b).1 ≠ cell := by
        rcases Nat.lt_or_gt_of_ne hne with hlt | hgt
        · rw [pairKey, if_neg (by omega)]
          show cell = b ↔ cell ≠ cell
          omega
        · rw [pairKey, if_pos hgt]
          show b = b ↔ b ≠ cell
          omega
      rw [pick, pick]
      split_ifs with hb hfirst
      · exact absurd hfirst (hotherEnd.mp hb)
      · rfl
      · rfl
      · exact absurd (hotherEnd.mpr ‹_›) hb
  refine ⟨(vis.1.toKeyPair, vis.2.toKeyPair), ⟨?_, ?_⟩, ?_, ?_⟩
  · show (((k.packageRows cell enableParticlesVpn).pairKeys .backbone).map _).get? _ = _
    rw [Dict.get?_map, h.get?_pairKeys, hvis]
    rfl
  · show (((k.packageRows cell enableParticlesVpn).presharedKeys .backbone).map _).get? _ = _
    rw [Dict.get?_map, hpsk']
    rfl
  · rw [← hcell, pick, pick]
    split_ifs <;> rfl
  · rw [← hother, pick, pick]
    split_ifs <;> rfl

end UvnKeys

end Uno
