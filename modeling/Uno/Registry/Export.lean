import Uno.Vpn.Keys
import Uno.Lib.ReplaceTable

/-!
# The keys in the package of a cell

`generate_cell_database` exports the keys of a cell into a fresh database: with their private halves those that
`cell_key_material` lists as private, and without them those that it lists as public.

A list of material is read off the places of its keys (`cellKeyMaterial_eq`), and since the places of a cell are
distinct, no write replaces a row: the exported rows are those of the places (`Valid.generateCellDatabase_eq`).
-/

namespace Uno

open PairedValuesMap CentralizedVpnKeyMaterial

/-! ### Key material -/

/-- `pair_keys` and `preshared_keys` of the `P2pVpnKeyMaterial`. -/
structure BackboneKeys where
  pairKeys : PairedValuesMap (AsymmKey × AsymmKey)
  presharedKeys : PairedValuesMap SymmKey

/-- `next(p for p in pair if p != peer)`. -/
def otherEnd (pair : ℕ × ℕ) (peer : ℕ) : Result ℕ :=
  if pair.1 ≠ peer then .ok pair.1 else if pair.2 ≠ peer then .ok pair.2 else .error .stopIteration

/-- `peer in pair`. -/
def HasEnd (pair : ℕ × ℕ) (peer : ℕ) : Prop := peer = pair.1 ∨ peer = pair.2

instance (pair : ℕ × ℕ) (peer : ℕ) : Decidable (HasEnd pair peer) :=
  inferInstanceAs (Decidable (peer = pair.1 ∨ peer = pair.2))

def BackboneKeys.getPeerMaterial (k : BackboneKeys) (peer : ℕ) (secret : Bool) : Result (List Material) := do
  let keys ← (k.pairKeys.entries.filter fun e => HasEnd e.1 peer).mapM fun e => do
    let other ← otherEnd e.1 peer
    .ok (Material.key (pick peer other (if secret then peer else other) e.2))
  if secret then
    .ok (keys ++ (k.presharedKeys.entries.filter fun e => HasEnd e.1 peer).map fun e => .psk e.2)
  else .ok keys

/-- The active keys of a registry. -/
structure ActiveKeys where
  root : CentralizedVpnKeyMaterial
  particles : ℕ → CentralizedVpnKeyMaterial
  backbone : BackboneKeys

/-- The material of the root of the particles VPN of a cell. -/
def ActiveKeys.particlesMaterial (k : ActiveKeys) (cell : ℕ) (enableParticlesVpn secret : Bool) :
    Result (List Material) :=
  if enableParticlesVpn then (k.particles cell).getPeerMaterial 0 secret else .ok []

/-- `cell_key_material`: the private and the public material of a cell. -/
def ActiveKeys.cellKeyMaterial (k : ActiveKeys) (cell : ℕ) (enableParticlesVpn : Bool) :
    Result (List Material × List Material) := do
  let rootPriv ← k.root.getPeerMaterial cell true
  let backbonePriv ← k.backbone.getPeerMaterial cell true
  let particlesPriv ← k.particlesMaterial cell enableParticlesVpn true
  let rootPub ← k.root.getPeerMaterial cell false
  let backbonePub ← k.backbone.getPeerMaterial cell false
  let particlesPub ← k.particlesMaterial cell enableParticlesVpn false
  .ok (rootPriv ++ backbonePriv ++ particlesPriv, rootPub ++ backbonePub ++ particlesPub)

/-- The active keys, and the ids of their rows. -/
structure UvnKeys extends ActiveKeys where
  asymmId : AsymmKeyId → ℕ
  symmId : SymmKeyId → ℕ

/-! ### Key tables -/

structure KeyRow (κ : Type) where
  id : ℕ
  key : κ
  deriving DecidableEq

/-- `asymm_keys` and `symm_keys`. -/
structure PackageKeys where
  asymmKeys : List (KeyRow AsymmKey)
  symmKeys : List (KeyRow SymmKey)
  deriving DecidableEq

/-- `a = b` between columns: `NULL` equals nothing. -/
def sqlEq (a b : Option String) : Bool := a = b ∧ a ≠ none

/-- `DB_TABLE_KEYS` of `WireGuardKeyPair`. -/
def asymmRowKeys : RowKeys (KeyRow AsymmKey) where
  id := KeyRow.id
  clashes r row := r.key.dropped = row.key.dropped ∧
    (r.key.keyId = row.key.keyId ∨ r.key.publicKey = row.key.publicKey ∨ sqlEq r.key.privateKey row.key.privateKey)

/-- `DB_TABLE_KEYS` of `WireGuardPsk`. -/
def symmRowKeys : RowKeys (KeyRow SymmKey) where
  id := KeyRow.id
  clashes r row := r.key.dropped = row.key.dropped ∧
    (r.key.keyId = row.key.keyId ∨ sqlEq r.key.value row.key.value)

/-- `serialize`: secret properties are left out of what is public. -/
def AsymmKey.serialize (isPublic : Bool) (key : AsymmKey) : AsymmKey :=
  if isPublic then { key with privateKey := none } else key

def SymmKey.serialize (isPublic : Bool) (key : SymmKey) : SymmKey :=
  if isPublic then { key with value := none } else key

/-- The row that is written for an object. -/
def KeyRow.map {κ : Type} (f : κ → κ) (r : KeyRow κ) : KeyRow κ := ⟨r.id, f r.key⟩

/-- Objects of one class with the same `EQ_PROPERTIES`. -/
def Material.same : Material → Material → Bool
  | .key k, .key k' => k.keyId = k'.keyId ∧ k.dropped = k'.dropped
  | .psk k, .psk k' => k.keyId = k'.keyId ∧ k.dropped = k'.dropped
  | _, _ => false

/-- `query_targets`: the keys of a dict. -/
def exportTargets : List Material → List Material
  | [] => []
  | m :: rest => m :: (exportTargets rest).filter fun m' => !m.same m'

namespace UvnKeys

variable (k : UvnKeys)

def asymmRow? : Material → Option (KeyRow AsymmKey)
  | .key key => some ⟨k.asymmId key.keyId, key⟩
  | .psk _ => none

def symmRow? : Material → Option (KeyRow SymmKey)
  | .key _ => none
  | .psk key => some ⟨k.symmId key.keyId, key⟩

/-- `export_objects`: key pairs come before preshared keys. -/
def exportObjects (db : PackageKeys) (objects : List Material) (isPublic : Bool) : Result PackageKeys :=
  let targets := exportTargets objects
  let asymm := asymmRowKeys.writeAll (KeyRow.map (AsymmKey.serialize isPublic)) db.asymmKeys
    (targets.filterMap k.asymmRow?)
  let symm := symmRowKeys.writeAll (KeyRow.map (SymmKey.serialize isPublic)) db.symmKeys
    (targets.filterMap k.symmRow?)
  match asymm, symm with
  | some asymmKeys, some symmKeys => .ok ⟨asymmKeys, symmKeys⟩
  | _, _ => .error .integrity

def exportIfAny (db : PackageKeys) (objects : List Material) (isPublic : Bool) : Result PackageKeys :=
  if objects = [] then .ok db else k.exportObjects db objects isPublic

/-- The key tables of `generate_cell_database`. -/
def generateCellDatabase (cell : ℕ) (enableParticlesVpn : Bool) : Result PackageKeys := do
  let (priv, pub) ← k.cellKeyMaterial cell enableParticlesVpn
  let db ← k.exportIfAny ⟨[], []⟩ priv false
  k.exportIfAny db pub true

/-! ### The place of a key -/

/-- The key with a key id. -/
def asymmAt : AsymmKeyId → Option AsymmKey
  | .root .root => k.root.rootKey
  | .root (.particles c) => (k.particles c).rootKey
  | .peer .root p => k.root.peerKeys.get? p
  | .peer (.particles c) p => (k.particles c).peerKeys.get? p
  | .pair .backbone pair 0 => (k.backbone.pairKeys.get? pair).map Prod.fst
  | .pair .backbone pair 1 => (k.backbone.pairKeys.get? pair).map Prod.snd
  | _ => none

def symmAt : SymmKeyId → Option SymmKey
  | ⟨.root, pair⟩ => k.root.presharedKeys.get? pair
  | ⟨.particles c, pair⟩ => (k.particles c).presharedKeys.get? pair
  | ⟨.backbone, pair⟩ => k.backbone.presharedKeys.get? pair

/-- What the tables of a registry guarantee of its active keys. -/
structure Valid : Prop where
  asymm : ∀ i key, k.asymmAt i = some key → key.keyId = i ∧ key.dropped = false ∧ key.privateKey ≠ none
  symm : ∀ i key, k.symmAt i = some key → key.keyId = i ∧ key.dropped = false ∧ key.value ≠ none
  /-- `UNIQUE (public, dropped)` and `UNIQUE (private, dropped)`. -/
  asymm_unique : ∀ i j key key', k.asymmAt i = some key → k.asymmAt j = some key' →
    key.publicKey = key'.publicKey ∨ key.privateKey = key'.privateKey → i = j
  /-- `UNIQUE (value, dropped)`. -/
  symm_unique : ∀ i j key key', k.symmAt i = some key → k.symmAt j = some key' → key.value = key'.value → i = j
  asymmId : Function.Injective k.asymmId
  symmId : Function.Injective k.symmId
  /-- `pair_key` puts the smaller end first. -/
  pairs : ∀ pair ∈ k.backbone.pairKeys.keys, pair.1 < pair.2
  psks : ∀ pair ∈ k.backbone.presharedKeys.keys, pair.1 < pair.2
  peerIds : ∀ c, (k.particles c).peerIds.Nodup

/-- The place of a key in one of the tables. -/
inductive Place where
  | asymm (i : AsymmKeyId)
  | symm (i : SymmKeyId)
  deriving DecidableEq

def materialAt : Place → Option Material
  | .asymm i => (k.asymmAt i).map .key
  | .symm i => (k.symmAt i).map .psk

def read (place : Place) : Result Material := lookup (k.materialAt place)

/-- A cell's own half of the key pairs of a link, and the half of the other end. -/
def ownHalf (cell : ℕ) (pair : ℕ × ℕ) : AsymmKeyId := .pair .backbone pair (if pair.1 = cell then 0 else 1)

def otherHalf (cell : ℕ) (pair : ℕ × ℕ) : AsymmKeyId := .pair .backbone pair (if pair.1 = cell then 1 else 0)

variable (cell : ℕ) (enableParticlesVpn : Bool)

/-- The pairs of a cell. -/
def pairsOf : List (ℕ × ℕ) := k.backbone.pairKeys.keys.filter (HasEnd · cell)

/-- The places of the keys that a cell gets with their secrets. -/
def privatePlaces : List Place :=
  [.asymm (.peer .root cell), .symm ⟨.root, (0, cell)⟩] ++
  ((k.pairsOf cell).map (fun pair => .asymm (ownHalf cell pair)) ++
    (k.backbone.presharedKeys.keys.filter (HasEnd · cell)).map fun pair => .symm ⟨.backbone, pair⟩) ++
  if enableParticlesVpn then
    .asymm (.root (.particles cell)) :: (k.particles cell).peerIds.map fun p => .symm ⟨.particles cell, (0, p)⟩
  else []

/-- The places of the keys that a cell gets without their private halves. -/
def publicPlaces : List AsymmKeyId :=
  .root .root :: (k.pairsOf cell).map (otherHalf cell) ++
  if enableParticlesVpn then (k.particles cell).peerIds.map fun p => .peer (.particles cell) p else []

end UvnKeys

/-! ### Reading the material of a cell -/

namespace UvnKeys

variable {k : UvnKeys} {cell : ℕ}

theorem pairKey_zero (p : ℕ) : pairKey 0 p = (0, p) := by
  simp [pairKey]

theorem lookup_map {α β : Type} (f : α → β) (o : Option α) :
    lookup (o.map f) = (lookup o >>= fun a => .ok (f a)) := by
  cases o with
  | none => rfl
  | some a => rfl

theorem root_private (hcell : 0 < cell) : k.root.getPeerMaterial cell true =
    [Place.asymm (.peer .root cell), .symm ⟨.root, (0, cell)⟩].mapM k.read := by
  rw [getPeerMaterial, if_neg hcell.ne', if_pos rfl, pairKey_zero]
  simp only [List.mapM_cons, List.mapM_nil, read, materialAt, asymmAt, symmAt, lookup_map, Except.pure_eq_ok,
    bind_assoc, Except.ok_bind]

theorem root_public (hcell : 0 < cell) : k.root.getPeerMaterial cell false =
    [AsymmKeyId.root .root].mapM fun i => k.read (.asymm i) := by
  rw [getPeerMaterial, if_neg hcell.ne', if_neg Bool.false_ne_true]
  simp only [List.mapM_cons, List.mapM_nil, read, materialAt, asymmAt, lookup_map, Except.pure_eq_ok, bind_assoc,
    Except.ok_bind]

theorem read_symm (vpn : Vpn) (pair : ℕ × ℕ) :
    k.read (.symm ⟨vpn, pair⟩) = Material.psk <$> lookup (k.symmAt ⟨vpn, pair⟩) := by
  rw [read, materialAt, lookup_map]
  cases lookup (k.symmAt ⟨vpn, pair⟩) with
  | error e => rfl
  | ok key => rfl

theorem read_asymm (i : AsymmKeyId) : k.read (.asymm i) = Material.key <$> lookup (k.asymmAt i) := by
  rw [read, materialAt, lookup_map]
  cases lookup (k.asymmAt i) with
  | error e => rfl
  | ok key => rfl

theorem map_eq_bind {α β : Type} (f : α → β) (x : Result α) : f <$> x = x >>= fun a => .ok (f a) := by
  cases x with
  | error e => rfl
  | ok a => rfl

theorem particles_private : (k.particles cell).getPeerMaterial 0 true =
    (.asymm (.root (.particles cell)) ::
      (k.particles cell).peerIds.map fun p => Place.symm ⟨.particles cell, (0, p)⟩).mapM k.read := by
  have hpsks : (k.particles cell).peerIds.mapM (k.read ∘ fun p => Place.symm ⟨.particles cell, (0, p)⟩) =
      List.map .psk <$> (k.particles cell).peerIds.mapM fun p =>
        lookup ((k.particles cell).presharedKeys.get? (pairKey 0 p)) := by
    rw [Fold.map_mapM]
    apply Fold.mapM_congr
    intro p _
    rw [Function.comp_apply, read_symm, pairKey_zero]
    rfl
  rw [getPeerMaterial, if_pos rfl, if_pos rfl, List.mapM_cons, List.mapM_map, hpsks, read_asymm, map_eq_bind, map_eq_bind]
  simp only [bind_assoc, Except.ok_bind, Except.pure_eq_ok]
  rfl

theorem particles_public : (k.particles cell).getPeerMaterial 0 false =
    ((k.particles cell).peerIds.map fun p => AsymmKeyId.peer (.particles cell) p).mapM fun i => k.read (.asymm i) := by
  rw [getPeerMaterial, if_pos rfl, if_neg Bool.false_ne_true, List.mapM_map, ← map_eq_bind, Fold.map_mapM]
  apply Fold.mapM_congr
  intro p _
  rw [Function.comp_apply, read_asymm]
  rfl

theorem otherEnd_of_hasEnd {pair : ℕ × ℕ} (hpair : pair.1 < pair.2) (hend : HasEnd pair cell) (keys : AsymmKey × AsymmKey) :
    ∃ other, otherEnd pair cell = .ok other ∧
      pick cell other cell keys = (if pair.1 = cell then keys.1 else keys.2) ∧
      pick cell other other keys = (if pair.1 = cell then keys.2 else keys.1) := by
  obtain ⟨a, b⟩ := pair
  rcases hend with rfl | rfl
  · refine ⟨b, ?_, ?_, ?_⟩
    · rw [otherEnd, if_neg (by simp), if_pos hpair.ne']
    · rw [if_pos rfl, (pick_self_of_lt hpair keys).1]
    · rw [if_pos rfl, (pick_self_of_lt hpair keys).2]
  · refine ⟨a, ?_, ?_, ?_⟩
    · rw [otherEnd, if_pos hpair.ne]
    · rw [if_neg hpair.ne, pick_comm, (pick_self_of_lt hpair keys).2]
    · rw [if_neg hpair.ne, pick_comm, (pick_self_of_lt hpair keys).1]

theorem backbone_halves (hpairs : ∀ pair ∈ k.backbone.pairKeys.keys, pair.1 < pair.2) (cell : ℕ) (secret : Bool) :
    ((k.backbone.pairKeys.entries.filter fun e => HasEnd e.1 cell).mapM fun e => do
      let other ← otherEnd e.1 cell
      .ok (Material.key (pick cell other (if secret then cell else other) e.2))) =
    ((k.pairsOf cell).map (if secret then ownHalf cell else otherHalf cell)).mapM
      fun i => k.read (.asymm i) := by
  rw [pairsOf, Dict.keys, List.filter_map, List.map_map, List.mapM_map]
  apply Fold.mapM_congr
  intro e he
  obtain ⟨he, hend⟩ := List.mem_filter.mp he
  have hget : k.backbone.pairKeys.get? e.1 = some e.2 := Dict.get?_eq_some_iff.mpr he
  obtain ⟨other, hother, hown, hpub⟩ := otherEnd_of_hasEnd (hpairs e.1 (List.mem_map_of_mem he)) (of_decide_eq_true hend) e.2
  have hread : ∀ i : AsymmKeyId, ∀ key, k.asymmAt i = some key → k.read (.asymm i) = .ok (.key key) := by
    intro i key hkey
    rw [read_asymm, hkey]
    rfl
  rw [hother, Except.ok_bind]
  cases secret with
  | true =>
    rw [if_pos rfl, hown]
    refine (hread (ownHalf cell e.1) _ ?_).symm
    rw [ownHalf]
    split_ifs
    · rw [asymmAt, hget]
      rfl
    · rw [asymmAt, hget]
      rfl
  | false =>
    rw [if_neg Bool.false_ne_true, hpub]
    refine (hread (otherHalf cell e.1) _ ?_).symm
    rw [otherHalf]
    split_ifs
    · rw [asymmAt, hget]
      rfl
    · rw [asymmAt, hget]
      rfl

theorem backbone_psks :
    ((k.backbone.presharedKeys.keys.filter (HasEnd · cell)).map fun pair => Place.symm ⟨.backbone, pair⟩).mapM k.read =
      .ok ((k.backbone.presharedKeys.entries.filter fun e => HasEnd e.1 cell).map fun e => .psk e.2) := by
  rw [Dict.keys, List.filter_map, List.map_map, List.mapM_map]
  apply Fold.mapM_eq_ok
  intro e he
  have hget : k.backbone.presharedKeys.get? e.1 = some e.2 := Dict.get?_eq_some_iff.mpr (List.mem_filter.mp he).1
  show k.read (.symm ⟨.backbone, e.1⟩) = _
  rw [read_symm, symmAt, hget]
  rfl

theorem backbone_private (hpairs : ∀ pair ∈ k.backbone.pairKeys.keys, pair.1 < pair.2) :
    k.backbone.getPeerMaterial cell true =
      ((k.pairsOf cell).map (fun pair => Place.asymm (ownHalf cell pair)) ++
        (k.backbone.presharedKeys.keys.filter (HasEnd · cell)).map fun pair => Place.symm ⟨.backbone, pair⟩).mapM
          k.read := by
  have hkeys := backbone_halves hpairs cell true
  simp only [if_true] at hkeys
  rw [BackboneKeys.getPeerMaterial, List.mapM_append, backbone_psks]
  simp only [if_true]
  rw [hkeys, List.mapM_map, List.mapM_map]
  rfl

theorem backbone_public (hpairs : ∀ pair ∈ k.backbone.pairKeys.keys, pair.1 < pair.2) :
    k.backbone.getPeerMaterial cell false =
      ((k.pairsOf cell).map (otherHalf cell)).mapM fun i => k.read (.asymm i) := by
  have hkeys := backbone_halves hpairs cell false
  simp only [if_neg Bool.false_ne_true] at hkeys
  rw [BackboneKeys.getPeerMaterial]
  simp only [if_neg Bool.false_ne_true]
  rw [hkeys, Except.bind_ok]

theorem cellKeyMaterial_eq (hpairs : ∀ pair ∈ k.backbone.pairKeys.keys, pair.1 < pair.2) (hcell : 0 < cell)
    (enableParticlesVpn : Bool) :
    k.cellKeyMaterial cell enableParticlesVpn =
      (k.privatePlaces cell enableParticlesVpn).mapM k.read >>= fun priv =>
        ((k.publicPlaces cell enableParticlesVpn).mapM fun i => k.read (.asymm i)) >>= fun pub => .ok (priv, pub) := by
  have hpriv : k.particlesMaterial cell enableParticlesVpn true =
      (if enableParticlesVpn then .asymm (.root (.particles cell)) ::
        (k.particles cell).peerIds.map fun p => Place.symm ⟨.particles cell, (0, p)⟩ else []).mapM k.read := by
    cases enableParticlesVpn with
    | true => exact particles_private
    | false => rfl
  have hpub : k.particlesMaterial cell enableParticlesVpn false =
      (if enableParticlesVpn then (k.particles cell).peerIds.map fun p => AsymmKeyId.peer (.particles cell) p
        else []).mapM fun i => k.read (.asymm i) := by
    cases enableParticlesVpn with
    | true => exact particles_public
    | false => rfl
  have hplaces : k.publicPlaces cell enableParticlesVpn =
      [.root .root] ++ (k.pairsOf cell).map (otherHalf cell) ++
        if enableParticlesVpn then (k.particles cell).peerIds.map fun p => .peer (.particles cell) p else [] := rfl
  rw [ActiveKeys.cellKeyMaterial, root_private hcell, backbone_private hpairs, hpriv, root_public hcell,
    backbone_public hpairs, hpub, privatePlaces, hplaces]
  simp only [List.mapM_append, bind_assoc, pure_bind, List.append_assoc]

/-! ### The rows of the keys of a cell -/

def Place.asymm? : Place → Option AsymmKeyId
  | .asymm i => some i
  | .symm _ => none

def Place.symm? : Place → Option SymmKeyId
  | .asymm _ => none
  | .symm i => some i

/-- The row of a key. -/
def asymmRowAt (k : UvnKeys) (i : AsymmKeyId) : Option (KeyRow AsymmKey) :=
  (k.asymmAt i).map fun key => ⟨k.asymmId i, key⟩

def symmRowAt (k : UvnKeys) (i : SymmKeyId) : Option (KeyRow SymmKey) := (k.symmAt i).map fun key => ⟨k.symmId i, key⟩

variable {is js : List AsymmKeyId} {ss : List SymmKeyId} {places : List Place} {ms : List Material}

theorem Valid.asymmRow? (h : k.Valid) {place : Place} {m : Material} (hm : k.materialAt place = some m) :
    k.asymmRow? m = place.asymm?.bind k.asymmRowAt := by
  cases place with
  | asymm i =>
    obtain ⟨key, hkey, rfl⟩ := Option.map_eq_some_iff.mp hm
    show some _ = k.asymmRowAt i
    rw [asymmRowAt, hkey, (h.asymm i key hkey).1]
    rfl
  | symm i =>
    obtain ⟨key, hkey, rfl⟩ := Option.map_eq_some_iff.mp hm
    rfl

theorem Valid.symmRow? (h : k.Valid) {place : Place} {m : Material} (hm : k.materialAt place = some m) :
    k.symmRow? m = place.symm?.bind k.symmRowAt := by
  cases place with
  | asymm i =>
    obtain ⟨key, hkey, rfl⟩ := Option.map_eq_some_iff.mp hm
    rfl
  | symm i =>
    obtain ⟨key, hkey, rfl⟩ := Option.map_eq_some_iff.mp hm
    show some _ = k.symmRowAt i
    rw [symmRowAt, hkey, (h.symm i key hkey).1]
    rfl

theorem mapM_lookup {α β : Type} (f : α → Option β) (l : List α) : (l.mapM fun a => lookup (f a)) =
    if ∀ a ∈ l, f a ≠ none then .ok (l.filterMap f) else .error .missingKeyMaterial := by
  induction l with
  | nil => rfl
  | cons a rest ih =>
    rw [List.mapM_cons, ih, List.filterMap_cons]
    cases ha : f a with
    | none => simp [lookup, ha]
    | some b =>
      by_cases hrest : ∀ a ∈ rest, f a ≠ none
      · have hall : ∀ a' ∈ a :: rest, f a' ≠ none := by
          intro a' ha'
          rcases List.mem_cons.mp ha' with rfl | ha'
          · rw [ha]
            exact Option.some_ne_none b
          · exact hrest a' ha'
        rw [if_pos hrest, if_pos hall]
        rfl
      · rw [if_neg hrest, if_neg fun hall => hrest fun a' ha' => hall a' (List.mem_cons_of_mem _ ha')]
        rfl

theorem Valid.rows_of_places (h : k.Valid) (places : List Place) :
    (places.filterMap k.materialAt).filterMap k.asymmRow? = (places.filterMap Place.asymm?).filterMap k.asymmRowAt ∧
      (places.filterMap k.materialAt).filterMap k.symmRow? =
        (places.filterMap Place.symm?).filterMap k.symmRowAt := by
  simp only [List.filterMap_filterMap]
  refine ⟨List.filterMap_congr fun place _ => ?_, List.filterMap_congr fun place _ => ?_⟩
  · cases hm : k.materialAt place with
    | some m => exact h.asymmRow? hm
    | none =>
      cases place with
      | asymm i =>
        show none = k.asymmRowAt i
        rw [asymmRowAt, Option.map_eq_none_iff.mp hm]
        rfl
      | symm i => rfl
  · cases hm : k.materialAt place with
    | some m => exact h.symmRow? hm
    | none =>
      cases place with
      | asymm i => rfl
      | symm i =>
        show none = k.symmRowAt i
        rw [symmRowAt, Option.map_eq_none_iff.mp hm]
        rfl

theorem Valid.same_eq_false (h : k.Valid) {place place' : Place} (hne : place ≠ place') {m m' : Material}
    (hm : k.materialAt place = some m) (hm' : k.materialAt place' = some m') : m.same m' = false := by
  cases place with
  | asymm p =>
    obtain ⟨key, hkey, rfl⟩ := Option.map_eq_some_iff.mp hm
    cases place' with
    | asymm q =>
      obtain ⟨key', hkey', rfl⟩ := Option.map_eq_some_iff.mp hm'
      have hpq : p ≠ q := fun heq => hne (congrArg Place.asymm heq)
      simp [Material.same, (h.asymm p key hkey).1, (h.asymm q key' hkey').1, hpq]
    | symm q =>
      obtain ⟨key', hkey', rfl⟩ := Option.map_eq_some_iff.mp hm'
      rfl
  | symm p =>
    obtain ⟨key, hkey, rfl⟩ := Option.map_eq_some_iff.mp hm
    cases place' with
    | asymm q =>
      obtain ⟨key', hkey', rfl⟩ := Option.map_eq_some_iff.mp hm'
      rfl
    | symm q =>
      obtain ⟨key', hkey', rfl⟩ := Option.map_eq_some_iff.mp hm'
      have hpq : p ≠ q := fun heq => hne (congrArg Place.symm heq)
      simp [Material.same, (h.symm p key hkey).1, (h.symm q key' hkey').1, hpq]

/-- Material at distinct places is exported as it is listed. -/
theorem Valid.exportTargets_eq (h : k.Valid) (hnodup : places.Nodup) :
    exportTargets (places.filterMap k.materialAt) = places.filterMap k.materialAt := by
  induction places with
  | nil => rfl
  | cons place rest ih =>
    obtain ⟨hfresh, hnodup⟩ := List.nodup_cons.mp hnodup
    rw [List.filterMap_cons]
    cases hm : k.materialAt place with
    | none => exact ih hnodup
    | some m =>
      show m :: _ = m :: _
      rw [ih hnodup, List.filter_eq_self.mpr]
      intro m' hm'
      obtain ⟨place', hplace', hm'⟩ := List.mem_filterMap.mp hm'
      have hne : place ≠ place' := fun heq => hfresh (by rwa [heq])
      rw [h.same_eq_false hne hm hm']
      rfl

theorem asymmRowAt_eq_some_iff {i : AsymmKeyId} {r : KeyRow AsymmKey} :
    k.asymmRowAt i = some r ↔ ∃ key, k.asymmAt i = some key ∧ r = ⟨k.asymmId i, key⟩ := by
  rw [asymmRowAt, Option.map_eq_some_iff]
  exact exists_congr fun key => and_congr_right fun _ => eq_comm

theorem symmRowAt_eq_some_iff {i : SymmKeyId} {r : KeyRow SymmKey} :
    k.symmRowAt i = some r ↔ ∃ key, k.symmAt i = some key ∧ r = ⟨k.symmId i, key⟩ := by
  rw [symmRowAt, Option.map_eq_some_iff]
  exact exists_congr fun key => and_congr_right fun _ => eq_comm

theorem Valid.writeAll_asymm (h : k.Valid) (hnodup : (js ++ is).Nodup) (isPublic : Bool) :
    asymmRowKeys.writeAll (KeyRow.map (AsymmKey.serialize isPublic)) (js.filterMap k.asymmRowAt)
        (is.filterMap k.asymmRowAt) =
      some (js.filterMap k.asymmRowAt ++ (is.filterMap k.asymmRowAt).map (KeyRow.map (AsymmKey.serialize isPublic))) := by
  refine RowKeys.writeAll_indexed hnodup (fun i j r r' hne hr hr' => ?_) (fun i j r r' hr hr' heq => ?_) fun r => rfl
  · obtain ⟨key, hkey, rfl⟩ := asymmRowAt_eq_some_iff.mp hr
    obtain ⟨key', hkey', rfl⟩ := asymmRowAt_eq_some_iff.mp hr'
    have hid : key'.keyId ≠ key.keyId := by
      rw [(h.asymm i key hkey).1, (h.asymm j key' hkey').1]
      exact hne.symm
    have hpublic : key'.publicKey ≠ key.publicKey := fun heq => hne (h.asymm_unique j i _ _ hkey' hkey (.inl heq)).symm
    have hprivate : key'.privateKey ≠ key.privateKey := fun heq => hne (h.asymm_unique j i _ _ hkey' hkey (.inr heq)).symm
    cases isPublic with
    | true => simp [asymmRowKeys, KeyRow.map, AsymmKey.serialize, sqlEq, hid, hpublic, hprivate]
    | false => simp [asymmRowKeys, KeyRow.map, AsymmKey.serialize, sqlEq, hid, hpublic, hprivate]
  · obtain ⟨key, hkey, rfl⟩ := asymmRowAt_eq_some_iff.mp hr
    obtain ⟨key', hkey', rfl⟩ := asymmRowAt_eq_some_iff.mp hr'
    exact h.asymmId heq

theorem Valid.writeAll_symm (h : k.Valid) (hnodup : ss.Nodup) :
    symmRowKeys.writeAll (KeyRow.map (SymmKey.serialize false)) [] (ss.filterMap k.symmRowAt) =
      some (ss.filterMap k.symmRowAt) := by
  have hwrite : symmRowKeys.writeAll id (([] : List SymmKeyId).filterMap k.symmRowAt) (ss.filterMap k.symmRowAt) =
      some (([] : List SymmKeyId).filterMap k.symmRowAt ++ (ss.filterMap k.symmRowAt).map id) := by
    refine RowKeys.writeAll_indexed hnodup (fun i j r r' hne hr hr' => ?_) (fun i j r r' hr hr' heq => ?_) fun r => rfl
    · obtain ⟨key, hkey, rfl⟩ := symmRowAt_eq_some_iff.mp hr
      obtain ⟨key', hkey', rfl⟩ := symmRowAt_eq_some_iff.mp hr'
      have hid : key'.keyId ≠ key.keyId := by
        rw [(h.symm i key hkey).1, (h.symm j key' hkey').1]
        exact hne.symm
      have hvalue : key'.value ≠ key.value := fun heq => hne (h.symm_unique j i _ _ hkey' hkey heq).symm
      simp [symmRowKeys, sqlEq, hid, hvalue]
    · obtain ⟨key, hkey, rfl⟩ := symmRowAt_eq_some_iff.mp hr
      obtain ⟨key', hkey', rfl⟩ := symmRowAt_eq_some_iff.mp hr'
      exact h.symmId heq
  rw [List.map_id] at hwrite
  exact hwrite

/-! ### The database of a cell -/

theorem nodup_pairsOf : (k.pairsOf cell).Nodup := k.backbone.pairKeys.keys_nodup.filter _

theorem ownHalf_ne_otherHalf (pair pair' : ℕ × ℕ) : ownHalf cell pair ≠ otherHalf cell pair' := by
  intro heq
  rw [ownHalf, otherHalf, AsymmKeyId.pair.injEq] at heq
  obtain ⟨-, rfl, hindex⟩ := heq
  split_ifs at hindex

theorem ownHalf_injective : Function.Injective (ownHalf cell) := fun _ _ heq => (AsymmKeyId.pair.inj heq).2.1

theorem otherHalf_injective : Function.Injective (otherHalf cell) := fun _ _ heq => (AsymmKeyId.pair.inj heq).2.1

theorem disjoint_map_of_ne {α β γ : Type} {f : α → γ} {g : β → γ} (h : ∀ a b, f a ≠ g b) (l : List α) (l' : List β) :
    (l.map f).Disjoint (l'.map g) := by
  intro x hx hx'
  obtain ⟨a, -, rfl⟩ := List.mem_map.mp hx
  obtain ⟨b, -, heq⟩ := List.mem_map.mp hx'
  exact h a b heq.symm

theorem Valid.nodup_places (h : k.Valid) (cell : ℕ) (enableParticlesVpn : Bool) :
    (k.privatePlaces cell enableParticlesVpn ++ (k.publicPlaces cell enableParticlesVpn).map Place.asymm).Nodup := by
  have hpairs : (k.pairsOf cell).Nodup := nodup_pairsOf
  have hpsks : (k.backbone.presharedKeys.keys.filter (HasEnd · cell)).Nodup := k.backbone.presharedKeys.keys_nodup.filter _
  have hown : ((k.pairsOf cell).map fun pair => Place.asymm (ownHalf cell pair)).Nodup :=
    hpairs.map fun _ _ heq => ownHalf_injective (Place.asymm.inj heq)
  have hother : ((k.pairsOf cell).map fun pair => Place.asymm (otherHalf cell pair)).Nodup :=
    hpairs.map fun _ _ heq => otherHalf_injective (Place.asymm.inj heq)
  have hpsks : ((k.backbone.presharedKeys.keys.filter (HasEnd · cell)).map fun pair => Place.symm ⟨.backbone, pair⟩).Nodup :=
    hpsks.map fun _ _ heq => by simpa using heq
  have hsymm : ((k.particles cell).peerIds.map fun p => Place.symm ⟨.particles cell, (0, p)⟩).Nodup :=
    (h.peerIds cell).map fun _ _ heq => by simpa using heq
  have hasymm : ((k.particles cell).peerIds.map fun p => Place.asymm (.peer (.particles cell) p)).Nodup :=
    (h.peerIds cell).map fun _ _ heq => by simpa using heq
  have hpair : ∀ pair v p, ownHalf cell pair ≠ .peer v p ∧ otherHalf cell pair ≠ .peer v p := fun _ _ _ => ⟨nofun, nofun⟩
  have hroot : ∀ pair v, ownHalf cell pair ≠ .root v ∧ otherHalf cell pair ≠ .root v := fun _ _ => ⟨nofun, nofun⟩
  cases enableParticlesVpn with
  | true =>
    simp [privatePlaces, publicPlaces, Function.comp_def, List.nodup_append', hown, hother, hpsks, hsymm, hasymm,
      disjoint_map_of_ne, ownHalf_ne_otherHalf, hpair, hroot]
  | false =>
    simp [privatePlaces, publicPlaces, Function.comp_def, List.nodup_append', hown, hother, hpsks, disjoint_map_of_ne,
      ownHalf_ne_otherHalf, hpair, hroot]

theorem exportIfAny_eq (db : PackageKeys) (objects : List Material) (isPublic : Bool) :
    k.exportIfAny db objects isPublic = k.exportObjects db objects isPublic := by
  unfold exportIfAny
  split_ifs with hnone
  · rw [hnone]
    rfl
  · rfl

/-- The rows in the package of a cell. -/
def packageRows (k : UvnKeys) (cell : ℕ) (enableParticlesVpn : Bool) : PackageKeys where
  asymmKeys := ((k.privatePlaces cell enableParticlesVpn).filterMap Place.asymm?).filterMap k.asymmRowAt ++
    ((k.publicPlaces cell enableParticlesVpn).filterMap k.asymmRowAt).map (KeyRow.map (AsymmKey.serialize true))
  symmKeys := ((k.privatePlaces cell enableParticlesVpn).filterMap Place.symm?).filterMap k.symmRowAt

/-- The keys that the package of a cell needs are there. -/
def HasKeysOf (k : UvnKeys) (cell : ℕ) (enableParticlesVpn : Bool) : Prop :=
  (∀ place ∈ k.privatePlaces cell enableParticlesVpn, k.materialAt place ≠ none) ∧
    ∀ i ∈ k.publicPlaces cell enableParticlesVpn, k.asymmAt i ≠ none

instance (k : UvnKeys) (cell : ℕ) (enableParticlesVpn : Bool) : Decidable (k.HasKeysOf cell enableParticlesVpn) :=
  inferInstanceAs (Decidable (_ ∧ _))

theorem filterMap_asymm?_map (is : List AsymmKeyId) : (is.map Place.asymm).filterMap Place.asymm? = is := by
  rw [List.filterMap_map]
  exact List.filterMap_some

theorem Valid.nodup_asymm (h : k.Valid) (cell : ℕ) (enableParticlesVpn : Bool) :
    ((k.privatePlaces cell enableParticlesVpn).filterMap Place.asymm? ++
      k.publicPlaces cell enableParticlesVpn).Nodup := by
  have hnodup := (h.nodup_places cell enableParticlesVpn).filterMap (f := Place.asymm?) fun p q i hp hq => by
    cases p with
    | symm _ => cases hp
    | asymm p =>
      cases q with
      | symm _ => cases hq
      | asymm q => rw [Option.mem_some_iff.mp hp, Option.mem_some_iff.mp hq]
  rwa [List.filterMap_append, filterMap_asymm?_map] at hnodup

theorem Valid.nodup_symm (h : k.Valid) (cell : ℕ) (enableParticlesVpn : Bool) :
    ((k.privatePlaces cell enableParticlesVpn).filterMap Place.symm?).Nodup := by
  refine (List.nodup_append'.mp (h.nodup_places cell enableParticlesVpn)).1.filterMap fun p q i hp hq => ?_
  cases p with
  | asymm _ => cases hp
  | symm p =>
    cases q with
    | asymm _ => cases hq
    | symm q => rw [Option.mem_some_iff.mp hp, Option.mem_some_iff.mp hq]

theorem Valid.exportObjects_private (h : k.Valid) (enableParticlesVpn : Bool) :
    k.exportObjects ⟨[], []⟩ ((k.privatePlaces cell enableParticlesVpn).filterMap k.materialAt) false =
      .ok ⟨((k.privatePlaces cell enableParticlesVpn).filterMap Place.asymm?).filterMap k.asymmRowAt,
        ((k.privatePlaces cell enableParticlesVpn).filterMap Place.symm?).filterMap k.symmRowAt⟩ := by
  obtain ⟨hasymm, hsymm⟩ := h.rows_of_places (k.privatePlaces cell enableParticlesVpn)
  have hnodup : (([] : List AsymmKeyId) ++ (k.privatePlaces cell enableParticlesVpn).filterMap Place.asymm?).Nodup :=
    (List.nodup_append'.mp (h.nodup_asymm cell enableParticlesVpn)).1
  have hwrite := h.writeAll_asymm hnodup false
  have hid : KeyRow.map (AsymmKey.serialize false) = id := rfl
  rw [List.filterMap_nil, List.nil_append, hid, List.map_id] at hwrite
  rw [exportObjects, h.exportTargets_eq (List.nodup_append'.mp (h.nodup_places cell enableParticlesVpn)).1, hasymm, hsymm,
    h.writeAll_symm (h.nodup_symm cell enableParticlesVpn), hid, hwrite]

theorem Valid.exportObjects_public (h : k.Valid) (enableParticlesVpn : Bool) :
    k.exportObjects ⟨((k.privatePlaces cell enableParticlesVpn).filterMap Place.asymm?).filterMap k.asymmRowAt,
        ((k.privatePlaces cell enableParticlesVpn).filterMap Place.symm?).filterMap k.symmRowAt⟩
        (((k.publicPlaces cell enableParticlesVpn).map Place.asymm).filterMap k.materialAt) true =
      .ok (k.packageRows cell enableParticlesVpn) := by
  obtain ⟨hasymm, hsymm⟩ := h.rows_of_places ((k.publicPlaces cell enableParticlesVpn).map Place.asymm)
  have hnone : ((k.publicPlaces cell enableParticlesVpn).map Place.asymm).filterMap Place.symm? = [] := by
    rw [List.filterMap_map]
    exact List.filterMap_eq_nil_iff.mpr fun _ _ => rfl
  rw [filterMap_asymm?_map] at hasymm
  rw [hnone, List.filterMap_nil] at hsymm
  rw [exportObjects, h.exportTargets_eq (List.nodup_append'.mp (h.nodup_places cell enableParticlesVpn)).2.1, hasymm, hsymm,
    h.writeAll_asymm (h.nodup_asymm cell enableParticlesVpn)]
  rfl

/-- The database of a cell is made when its keys are there, and holds their rows. -/
theorem Valid.generateCellDatabase_eq (h : k.Valid) (hcell : 0 < cell) (enableParticlesVpn : Bool) :
    k.generateCellDatabase cell enableParticlesVpn =
      if k.HasKeysOf cell enableParticlesVpn then .ok (k.packageRows cell enableParticlesVpn)
      else .error .missingKeyMaterial := by
  have hpriv := mapM_lookup k.materialAt (k.privatePlaces cell enableParticlesVpn)
  have hpub := mapM_lookup (fun i => k.materialAt (.asymm i)) (k.publicPlaces cell enableParticlesVpn)
  have hiff : (∀ i ∈ k.publicPlaces cell enableParticlesVpn, k.materialAt (.asymm i) ≠ none) ↔
      ∀ i ∈ k.publicPlaces cell enableParticlesVpn, k.asymmAt i ≠ none := by
    refine forall₂_congr fun i _ => not_congr ?_
    exact Option.map_eq_none_iff
  have hmap : (k.publicPlaces cell enableParticlesVpn).filterMap (fun i => k.materialAt (.asymm i)) =
      ((k.publicPlaces cell enableParticlesVpn).map Place.asymm).filterMap k.materialAt := by
    rw [List.filterMap_map]
    rfl
  rw [generateCellDatabase, cellKeyMaterial_eq h.pairs hcell]
  show ((List.mapM (fun place => lookup (k.materialAt place)) _ >>= _) >>= _) = _
  rw [hpriv]
  by_cases hall : ∀ place ∈ k.privatePlaces cell enableParticlesVpn, k.materialAt place ≠ none
  · rw [if_pos hall, Except.ok_bind]
    show ((List.mapM (fun i => lookup (k.materialAt (.asymm i))) _ >>= _) >>= _) = _
    rw [hpub]
    by_cases hpublic : ∀ i ∈ k.publicPlaces cell enableParticlesVpn, k.materialAt (.asymm i) ≠ none
    · rw [if_pos hpublic, if_pos ⟨hall, hiff.mp hpublic⟩, Except.ok_bind, Except.ok_bind]
      simp only [exportIfAny_eq]
      rw [hmap, h.exportObjects_private, Except.ok_bind, h.exportObjects_public]
    · rw [if_neg hpublic, if_neg fun hkeys => hpublic (hiff.mpr hkeys.2)]
      rfl
  · rw [if_neg hall, if_neg fun hkeys => hall hkeys.1]
    rfl

end UvnKeys

end Uno
