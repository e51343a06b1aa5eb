import Uno.Vpn.KeyMapRows

/-!
# Key material of a centralized VPN and its rows

`Keymat` is the key material of a centralized VPN in memory, with the rows of its keys in the database and
the notes that `save` writes: which keys were dropped, and which were deleted. Loading it, removing keys,
saving and asserting keys are related to the rows: `purgeGonePeers` and `dropKeys` come down to a `Removal`
of rows (`Tidy.purgeGonePeers`, `Tidy.dropKeys`), and `assertKeys` to new rows (`exists_assertKeys`).
-/

namespace Uno

open PairedValuesMap

/-- The place of a key pair in the key material of a centralized VPN. -/
inductive KeyPlace where
  | root
  | peer (id : ℕ)
  deriving DecidableEq

/-- The id of a place in a delete map. -/
def KeyPlace.peerId : KeyPlace → ℕ
  | .root => 0
  | .peer id => id

/-- The places of the peers that are not in a list. -/
def KeyPlace.Gone (peerIds : List ℕ) : KeyPlace → Prop
  | .root => False
  | .peer id => id ∉ peerIds

instance (peerIds : List ℕ) : DecidablePred (KeyPlace.Gone peerIds)
  | .root => inferInstanceAs (Decidable False)
  | .peer _ => inferInstanceAs (Decidable (_ ∉ _))

theorem KeyPlace.not_gone_root (peerIds : List ℕ) : ¬ KeyPlace.root.Gone peerIds := id

abbrev CentralTable := FlaggedTable KeyPlace String

/-- The rows with the prefix of a centralized VPN: its key pairs and its preshared keys. -/
structure KeymatRows where
  keys : CentralTable
  psks : KeysTable

/-- `CentralizedVpnKeyMaterial`, with the rows of its keys. -/
structure Keymat where
  rootKey : Option KeyObject
  peerKeys : Dict ℕ KeyObject
  presharedKeys : VpnKeysMap
  dropped : Dict KeyPlace KeyObject
  deleted : Dict KeyPlace KeyObject
  table : CentralTable

namespace Keymat

/-- The key of a peer that a row with a flag holds. -/
def peerEntry (flag : Bool) (r : FlaggedRow KeyPlace String) : Option (ℕ × KeyObject) :=
  match r.key with
  | .peer id => if r.flag = flag then some (id, ⟨r.id, r.value⟩) else none
  | .root => none

/-- `_load_key`, of the root key. -/
def loadRootKey (table : CentralTable) (dropped : Bool) : Option KeyObject :=
  (table.rows.find? fun r => r.key = .root ∧ r.flag = dropped).map fun r => ⟨r.id, r.value⟩

/-- `_load_keys`, of the peer keys. -/
def loadPeerKeys (table : CentralTable) (dropped : Bool) : Dict ℕ KeyObject :=
  (table.rows.filterMap (peerEntry dropped)).foldl (fun d e => d.set e.1 e.2) ∅

/-- `load_nested`, of the active keys. -/
def load (rows : KeymatRows) : Keymat where
  rootKey := loadRootKey rows.keys false
  peerKeys := loadPeerKeys rows.keys false
  presharedKeys := .load rows.psks
  dropped := ∅
  deleted := ∅
  table := rows.keys

/-- `load_nested` with `prefer_dropped`: a dropped key has precedence over the active one. -/
def loadRekeyed (rows : KeymatRows) : Keymat where
  rootKey := (loadRootKey rows.keys true).or (loadRootKey rows.keys false)
  peerKeys := (loadPeerKeys rows.keys true).union (loadPeerKeys rows.keys false)
  presharedKeys := .loadRekeyed rows.psks
  dropped := ∅
  deleted := ∅
  table := rows.keys

/-- The rows in the database. -/
def rows (m : Keymat) : KeymatRows := ⟨m.table, m.presharedKeys.table⟩

theorem peer_injective : Function.Injective KeyPlace.peer := fun _ _ h => KeyPlace.peer.inj h

/-- The key pairs in memory, by their place. -/
def keys (m : Keymat) : Dict KeyPlace KeyObject where
  entries := (m.rootKey.toList.map fun key => (.root, key)) ++ m.peerKeys.entries.map fun e => (.peer e.1, e.2)
  nodup := by
    rw [List.map_append, List.map_map, List.map_map]
    refine List.Nodup.append ?_ ?_ fun k hroot hpeer => ?_
    · cases m.rootKey with
      | none => exact .nil
      | some key => exact List.nodup_singleton _
    · have := m.peerKeys.nodup.map peer_injective
      rwa [List.map_map] at this
    · obtain ⟨_, -, rfl⟩ := List.mem_map.mp hroot
      obtain ⟨_, -, heq⟩ := List.mem_map.mp hpeer
      cases heq

/-- The ids of the rows of some keys. -/
def objectIds (keys : Dict KeyPlace KeyObject) : List ℕ := keys.values.map KeyObject.id

/-! ### The operations -/

section operations

/-- `_drop_key` of some keys: each is noted as deleted or as dropped, unless it is noted already. -/
def dropKeysOf (m : Keymat) (keys : Dict KeyPlace KeyObject) (deletes : KeyPlace → Bool) : Keymat :=
  { m with
    dropped := m.dropped.union (keys.filterKeys fun k => !deletes k)
    deleted := m.deleted.union (keys.filterKeys deletes) }

/-- Saving the key material: the keys that were dropped get the flag, the preshared keys are saved, and the
keys that were deleted are deleted from the table. -/
def save (m : Keymat) : Result Keymat :=
  match m.table.flagAll (objectIds m.dropped) with
  | none => .error .integrity
  | some table => do
    let psks ← m.presharedKeys.save
    .ok { m with
      presharedKeys := psks
      dropped := ∅
      deleted := ∅
      table := table.deleteAll (objectIds m.deleted) }

/-- Keys that were deleted are deleted from the database at once. -/
def saveIf (m : Keymat) (deleted : Bool) : Result Keymat := if deleted then m.save else .ok m

/-- `delete or delete_map.get(peer_id, False)`. -/
def deletesKey (delete : Bool) (deleteMap : ℕ → Bool) (k : KeyPlace) : Bool := delete || deleteMap k.peerId

def dropKeys (m : Keymat) (delete : Bool) (deleteMap : ℕ → Bool) : Result (ℕ × Keymat) := do
  let deletes := deletesKey delete deleteMap
  let (n, psks) ← m.presharedKeys.dropKeys delete deleteMap
  let m' ← saveIf { m.dropKeysOf m.keys deletes with rootKey := none, peerKeys := ∅, presharedKeys := psks }
    (m.keys.keys.any deletes)
  .ok (m.keys.size + n, m')

/-- The peers with a key that are not in a list. -/
def gonePeers (m : Keymat) (peerIds : List ℕ) : List ℕ := m.peerKeys.keys.filter (· ∉ peerIds)

/-- `preshared_keys.purge_peer` of one peer after the other. -/
def purgePeers (psks : VpnKeysMap) (peers : List ℕ) (delete : Bool) (deleteMap : ℕ → Bool) : Result VpnKeysMap :=
  peers.foldlM (fun psks peer => do .ok (← psks.purgePeer .preshared peer delete deleteMap).2) psks

def purgeGonePeers (m : Keymat) (peerIds : List ℕ) (delete : Bool) (deleteMap : ℕ → Bool) :
    Result (List ℕ × Keymat) := do
  let deletes := deletesKey delete deleteMap
  let gone := m.gonePeers peerIds
  let psks ← purgePeers m.presharedKeys gone delete deleteMap
  let m' ← saveIf { m.dropKeysOf (m.keys.filterKeys fun k => ∃ p ∈ gone, k = .peer p) deletes with
    peerKeys := m.peerKeys.filterKeys (· ∈ peerIds), presharedKeys := psks } (gone.any fun p => deletes (.peer p))
  .ok (gone.filter (fun p => deletes (.peer p)) ++ gone.filter (fun p => !deletes (.peer p)), m')

variable (source : ℕ → String)

/-- `new_child`: a new key pair, inserted at once. -/
def newKey (table : CentralTable) (place : KeyPlace) : Result (KeyObject × CentralTable) :=
  match table.insert place (source (table.lastId + 1)) with
  | some table' => .ok (⟨table.lastId + 1, source (table.lastId + 1)⟩, table')
  | none => .error .integrity

def assertRoot (m : Keymat) : Result Keymat :=
  match m.rootKey with
  | some _ => .ok m
  | none => do
    let (key, table) ← newKey source m.table .root
    .ok { m with rootKey := some key, table := table }

/-- The key pair of a peer. -/
def assertPeerKey (m : Keymat) (peer : ℕ) : Result Keymat :=
  match m.peerKeys.get? peer with
  | some _ => .ok m
  | none => do
    let (key, table) ← newKey source m.table (.peer peer)
    .ok { m with peerKeys := m.peerKeys.set peer key, table := table }

/-- The key pair of a peer and its preshared key with the root. -/
def assertPeer (m : Keymat) (peer : ℕ) : Result Keymat := do
  let m ← m.assertPeerKey source peer
  let (_, psks) ← m.presharedKeys.assertPair .preshared source 0 peer
  .ok { m with presharedKeys := psks }

def assertKeys (m : Keymat) (peerIds : List ℕ) : Result Keymat := do
  let m ← m.assertRoot source
  peerIds.foldlM (assertPeer source) m

end operations

/-! ### Memory and rows -/

/-- The rows of the key pairs once the notes are saved. -/
def After (m : Keymat) : FlaggedRow KeyPlace String → Prop :=
  m.table.After (objectIds m.dropped) (objectIds m.deleted)

/-- The keys in memory are those of the rows without flag that stay, and there is no note about them. -/
structure Tidy (m : Keymat) : Prop where
  keys : ∀ k o, m.keys.get? k = some o ↔ m.After ⟨o.id, k, o.value, false⟩
  notes : ∀ k o, m.keys.get? k = some o → m.dropped.get? k = none ∧ m.deleted.get? k = none
  psks : m.presharedKeys.Tidy

/-- Key material without notes. -/
structure Settled (m : Keymat) : Prop where
  dropped : m.dropped = ∅
  deleted : m.deleted = ∅
  psks : m.presharedKeys.Settled

variable {m m' : Keymat} {r : FlaggedRow KeyPlace String} {rows : KeymatRows}

@[simp] theorem get?_keys_root : m.keys.get? .root = m.rootKey := by
  ext o
  rw [Dict.get?_eq_some_iff]
  simp [keys]

@[simp] theorem get?_keys_peer (p : ℕ) : m.keys.get? (.peer p) = m.peerKeys.get? p := by
  ext o
  rw [Dict.get?_eq_some_iff, Dict.get?_eq_some_iff]
  simp [keys]

theorem mem_objectIds {keys : Dict KeyPlace KeyObject} {i : ℕ} :
    i ∈ objectIds keys ↔ ∃ k o, keys.get? k = some o ∧ o.id = i := by
  simp only [objectIds, Dict.values, List.map_map, List.mem_map, Dict.get?_eq_some_iff, Function.comp_apply, Prod.exists]

theorem Settled.after_iff (h : m.Settled) : m.After r ↔ r ∈ m.table.rows := by
  rw [After, h.dropped, h.deleted]
  exact FlaggedTable.after_nil

theorem Settled.save (h : m.Settled) : m.save = .ok m := by
  obtain ⟨rootKey, peerKeys, ⟨content, dropped, deleted, psks⟩, dropped', deleted', table⟩ := m
  obtain ⟨hdropped, hdeleted, hdropped', hdeleted'⟩ := h
  cases hdropped
  cases hdeleted
  cases hdropped'
  cases hdeleted'
  rfl

theorem settled_load (rows : KeymatRows) : (load rows).Settled := ⟨rfl, rfl, rfl, rfl⟩

theorem loadRootKey_eq_some_iff {table : CentralTable} {b : Bool} {o : KeyObject} :
    loadRootKey table b = some o ↔ (⟨o.id, .root, o.value, b⟩ : FlaggedRow KeyPlace String) ∈ table.rows := by
  rw [loadRootKey, Option.map_eq_some_iff]
  constructor
  · rintro ⟨⟨id, key, value, flag⟩, hfind, rfl⟩
    have hrow := List.find?_some hfind
    rw [decide_eq_true_eq] at hrow
    obtain ⟨hkey, hflag⟩ := hrow
    cases hkey
    cases hflag
    exact List.mem_of_find?_eq_some hfind
  · intro hr
    have hget := FlaggedTable.get?_eq_some_iff.mpr ⟨_, hr, rfl, rfl, rfl⟩
    rw [FlaggedTable.get?, Option.map_eq_some_iff] at hget
    obtain ⟨r', hfind, -⟩ := hget
    have hrow := List.find?_some hfind
    rw [decide_eq_true_eq] at hrow
    have heq := table.eq_of_key (List.mem_of_find?_eq_some hfind) hr hrow.1 hrow.2
    exact ⟨r', hfind, by rw [heq]⟩

theorem peerEntry_eq_some_iff {b : Bool} {p : ℕ} {o : KeyObject} :
    peerEntry b r = some (p, o) ↔ r = ⟨o.id, .peer p, o.value, b⟩ := by
  obtain ⟨id, key, value, flag⟩ := r
  cases key with
  | root => simp [peerEntry]
  | peer q =>
    simp only [peerEntry, Option.ite_none_right_eq_some, Option.some.injEq, Prod.mk.injEq, FlaggedRow.mk.injEq,
      KeyPlace.peer.injEq]
    constructor
    · rintro ⟨rfl, rfl, rfl⟩
      exact ⟨rfl, rfl, rfl, rfl⟩
    · rintro ⟨rfl, rfl, rfl, rfl⟩
      exact ⟨rfl, rfl, rfl⟩

theorem get?_loadPeerKeys {table : CentralTable} {b : Bool} {p : ℕ} {o : KeyObject} :
    (loadPeerKeys table b).get? p = some o ↔
      (⟨o.id, .peer p, o.value, b⟩ : FlaggedRow KeyPlace String) ∈ table.rows := by
  have hmem : ∀ e, e ∈ table.rows.filterMap (peerEntry b) ↔
      (⟨e.2.id, .peer e.1, e.2.value, b⟩ : FlaggedRow KeyPlace String) ∈ table.rows := by
    rintro ⟨p, o⟩
    rw [List.mem_filterMap]
    simp only [peerEntry_eq_some_iff, exists_eq_right]
  have hnodup : ((table.rows.filterMap (peerEntry b)).map Prod.fst).Nodup := by
    rw [List.Nodup, List.pairwise_map, List.pairwise_filterMap]
    refine (List.pairwise_map.mp table.unique).imp fun {r r'} hne e he e' he' heq => hne ?_
    rw [peerEntry_eq_some_iff.mp he, peerEntry_eq_some_iff.mp he', heq]
  have hpeers : (loadPeerKeys table b).entries = table.rows.filterMap (peerEntry b) :=
    Dict.foldl_set _ ∅ (by rwa [Dict.entries_empty, List.nil_append])
  rw [Dict.get?_eq_some_iff, hpeers, hmem]

theorem tidy_load (rows : KeymatRows) : (load rows).Tidy := by
  refine ⟨fun k o => ?_, fun _ _ _ => ⟨rfl, rfl⟩, VpnKeysMap.tidy_load _⟩
  rw [(settled_load rows).after_iff]
  cases k with
  | root =>
    rw [get?_keys_root]
    exact loadRootKey_eq_some_iff
  | peer p =>
    rw [get?_keys_peer]
    exact get?_loadPeerKeys

theorem get?_loadRekeyed (rows : KeymatRows) (k : KeyPlace) :
    ((loadRekeyed rows).keys.get? k).map KeyObject.value = (rows.keys.get? k true).or (rows.keys.get? k false) := by
  have hvalue : ∀ {o : Option KeyObject} {b : Bool},
      (∀ v, o = some v ↔ (⟨v.id, k, v.value, b⟩ : FlaggedRow KeyPlace String) ∈ rows.keys.rows) →
      rows.keys.get? k b = o.map KeyObject.value := by
    intro o b ho
    ext v
    rw [FlaggedTable.get?_eq_some_iff, Option.map_eq_some_iff]
    constructor
    · rintro ⟨⟨id, key, value, flag⟩, hr, rfl, rfl, rfl⟩
      exact ⟨⟨id, value⟩, (ho _).mpr hr, rfl⟩
    · rintro ⟨o', ho', rfl⟩
      exact ⟨_, (ho o').mp ho', rfl, rfl, rfl⟩
  cases k with
  | root =>
    rw [get?_keys_root, hvalue fun _ => loadRootKey_eq_some_iff, hvalue fun _ => loadRootKey_eq_some_iff, ← Option.map_or]
    rfl
  | peer p =>
    rw [get?_keys_peer, hvalue fun _ => get?_loadPeerKeys, hvalue fun _ => get?_loadPeerKeys, ← Option.map_or,
      ← Dict.get?_union]
    rfl

/-! ### Removing and saving -/

theorem after_dropKeysOf (h : m.Tidy) {S : KeyPlace → Prop} [DecidablePred S] {removed : Dict KeyPlace KeyObject}
    (hremoved : ∀ k, removed.get? k = if S k then m.keys.get? k else none) (deletes : KeyPlace → Bool) :
    (m.dropKeysOf removed deletes).After r ↔ FlaggedTable.Removal m.After S (fun k => deletes k) r := by
  have hkey : ∀ k o, removed.get? k = some o ↔ S k ∧ m.After ⟨o.id, k, o.value, false⟩ := by
    intro k o
    rw [hremoved, ← h.keys]
    by_cases hk : S k
    · simp [hk]
    · simp [hk]
  have hnone : ∀ k o, removed.get? k = some o → m.dropped.get? k = none ∧ m.deleted.get? k = none := by
    intro k o hget
    rw [hremoved] at hget
    split_ifs at hget
    exact h.notes k o hget
  have hids : ∀ {notes : Dict KeyPlace KeyObject} {d : KeyPlace → Bool},
      (∀ k o, removed.get? k = some o → notes.get? k = none) →
      ∀ i, i ∈ objectIds (notes.union (removed.filterKeys d)) ↔
        i ∈ objectIds notes ∨ ∃ r, m.After r ∧ r.flag = false ∧ S r.key ∧ d r.key = true ∧ r.id = i := by
    intro notes d hnone i
    simp only [mem_objectIds, Dict.get?_union, Dict.get?_filterKeys, Option.or_eq_some_iff]
    constructor
    · rintro ⟨k, o, hget | ⟨-, hget⟩, rfl⟩
      · exact .inl ⟨k, o, hget, rfl⟩
      · split_ifs at hget with hd
        obtain ⟨hk, hafter⟩ := (hkey k o).mp hget
        exact .inr ⟨_, hafter, rfl, hk, hd, rfl⟩
    · rintro (⟨k, o, hget, rfl⟩ | ⟨⟨id, k, value, flag⟩, hafter, hflag, hk, hd, rfl⟩)
      · exact ⟨k, o, .inl hget, rfl⟩
      · cases hflag
        have hget := (hkey k ⟨id, value⟩).mpr ⟨hk, hafter⟩
        exact ⟨k, _, .inr ⟨hnone k _ hget, by rw [if_pos hd, hget]⟩, rfl⟩
  refine FlaggedTable.after_removal (fun i => ?_) fun i => ?_
  · refine (hids (fun k o hget => (hnone k o hget).1) i).trans ?_
    simp only [Bool.not_eq_true', Bool.not_eq_true]
    rfl
  · exact hids (fun k o hget => (hnone k o hget).2) i

theorem save_eq_ok (h : m.save = .ok m') :
    ∃ t psks, m.table.flagAll (objectIds m.dropped) = some t ∧ m.presharedKeys.save = .ok psks ∧
      m' = { m with presharedKeys := psks, dropped := ∅, deleted := ∅, table := t.deleteAll (objectIds m.deleted) } := by
  unfold save at h
  split at h
  · cases h
  · rename_i t ht
    obtain ⟨psks, hpsks, heq⟩ := Except.bind_eq_ok_iff.mp h
    exact ⟨t, psks, ht, hpsks, (Except.ok.inj heq).symm⟩

theorem save_rows (h : m.save = .ok m') :
    (∀ r, r ∈ m'.rows.keys.rows ↔ m.After r) ∧ (∀ r, r ∈ m'.rows.psks.rows ↔ m.presharedKeys.After r) := by
  obtain ⟨t, psks, ht, hpsks, rfl⟩ := save_eq_ok h
  exact ⟨fun r => FlaggedTable.mem_flagAll_deleteAll ht, (VpnKeysMap.save_rows hpsks).1⟩

theorem mem_table_saveIf {b : Bool} (hok : saveIf m b = .ok m') (hr : r ∈ m'.table.rows) (hflag : r.flag = false) :
    r ∈ m.table.rows := by
  unfold saveIf at hok
  split_ifs at hok
  · exact ((FlaggedTable.after_iff_of_not_flag hflag).mp (((save_rows hok).1 r).mp hr)).1
  · obtain rfl := Except.ok.inj hok
    exact hr

theorem mem_table_dropKeys {delete : Bool} {deleteMap : ℕ → Bool} {n : ℕ}
    (hok : m.dropKeys delete deleteMap = .ok (n, m')) (hr : r ∈ m'.table.rows) (hflag : r.flag = false) :
    r ∈ m.table.rows := by
  obtain ⟨psks, -, hok⟩ := Except.bind_eq_ok_iff.mp hok
  obtain ⟨m₁, hsave, heq⟩ := Except.bind_eq_ok_iff.mp hok
  obtain rfl := (Prod.mk.inj (Except.ok.inj heq)).2
  have hmem := mem_table_saveIf hsave hr hflag
  exact hmem

theorem mem_table_purgeGonePeers {peerIds gone : List ℕ} {delete : Bool} {deleteMap : ℕ → Bool}
    (hok : m.purgeGonePeers peerIds delete deleteMap = .ok (gone, m')) (hr : r ∈ m'.table.rows)
    (hflag : r.flag = false) : r ∈ m.table.rows := by
  obtain ⟨psks, -, hok⟩ := Except.bind_eq_ok_iff.mp hok
  obtain ⟨m₁, hsave, heq⟩ := Except.bind_eq_ok_iff.mp hok
  obtain rfl := (Prod.mk.inj (Except.ok.inj heq)).2
  have hmem := mem_table_saveIf hsave hr hflag
  exact hmem

theorem purgePeers_after {psks psks' : VpnKeysMap} (h : psks.Tidy) {peers : List ℕ} {delete : Bool}
    {deleteMap : ℕ → Bool} (hok : purgePeers psks peers delete deleteMap = .ok psks') :
    psks'.Tidy ∧ ∀ r, psks'.After r ↔
      FlaggedTable.Removal psks.After (VpnKeysMap.At fun p => p.1 ∈ peers ∨ p.2 ∈ peers)
        (fun k => VpnKeysMap.deletesPair delete deleteMap k.1) r := by
  induction peers generalizing psks with
  | nil =>
    cases hok
    refine ⟨h, fun r => ?_⟩
    simp [FlaggedTable.Removal, VpnKeysMap.At]
  | cons peer peers ih =>
    unfold purgePeers at hok
    rw [List.foldlM_cons] at hok
    obtain ⟨psks₁, hstep, hrest⟩ := Except.bind_eq_ok_iff.mp hok
    obtain ⟨⟨purged, psks₂⟩, hpurge, heq⟩ := Except.bind_eq_ok_iff.mp hstep
    cases heq
    obtain ⟨htidy, hafter⟩ := h.purgePeer hpurge
    obtain ⟨htidy', hafter'⟩ := ih htidy hrest
    refine ⟨htidy', fun r => ?_⟩
    rw [hafter', FlaggedTable.Removal.congr hafter, FlaggedTable.removal_removal]
    have hset : (fun k => VpnKeysMap.At (fun p => peer = p.1 ∨ peer = p.2) k ∨
        VpnKeysMap.At (fun p => p.1 ∈ peers ∨ p.2 ∈ peers) k) =
          VpnKeysMap.At fun p => p.1 ∈ peer :: peers ∨ p.2 ∈ peer :: peers := by
      funext k
      simp only [VpnKeysMap.At, List.mem_cons, eq_iff_iff, @eq_comm ℕ peer]
      tauto
    rw [hset]

theorem get?_gone (peerIds : List ℕ) (k : KeyPlace) :
    (m.keys.filterKeys fun k => ∃ p ∈ m.gonePeers peerIds, k = .peer p).get? k =
      if k.Gone peerIds then m.keys.get? k else none := by
  rw [Dict.get?_filterKeys]
  simp only [decide_eq_true_eq]
  cases k with
  | root => simp [KeyPlace.Gone]
  | peer p =>
    rw [get?_keys_peer]
    by_cases hp : p ∈ peerIds
    · simp [gonePeers, KeyPlace.Gone, hp]
    · by_cases hkey : p ∈ m.peerKeys.keys
      · simp [gonePeers, KeyPlace.Gone, hp, hkey]
      · rw [Dict.get?_eq_none_iff.mpr hkey, ite_self, ite_self]

theorem get?_filterKeys_peerKeys (peerIds : List ℕ) (k : KeyPlace) :
    ({ m with peerKeys := m.peerKeys.filterKeys (· ∈ peerIds) } : Keymat).keys.get? k =
      if k.Gone peerIds then none else m.keys.get? k := by
  cases k with
  | root => rw [get?_keys_root, get?_keys_root, if_neg (by simp [KeyPlace.Gone])]
  | peer p =>
    rw [get?_keys_peer, get?_keys_peer, Dict.get?_filterKeys]
    by_cases hp : p ∈ peerIds <;> simp [KeyPlace.Gone, hp]

/-- Key material whose keys at some places were noted and forgotten. -/
theorem Tidy.removed (h : m.Tidy) (m' : Keymat) {S : KeyPlace → Prop} [DecidablePred S] {removed : Dict KeyPlace KeyObject}
    (hremoved : ∀ k, removed.get? k = if S k then m.keys.get? k else none) {deletes : KeyPlace → Bool}
    (hdropped : m'.dropped = (m.dropKeysOf removed deletes).dropped)
    (hdeleted : m'.deleted = (m.dropKeysOf removed deletes).deleted) (htable : m'.table = m.table)
    (hkeys : ∀ k, m'.keys.get? k = if S k then none else m.keys.get? k) (hpsks : m'.presharedKeys.Tidy) :
    m'.Tidy ∧ ∀ r, m'.After r ↔ FlaggedTable.Removal m.After S (fun k => deletes k) r := by
  have hafter : ∀ r, m'.After r ↔ FlaggedTable.Removal m.After S (fun k => deletes k) r := by
    intro r
    rw [After, hdropped, hdeleted, htable]
    exact after_dropKeysOf h hremoved deletes
  refine ⟨⟨fun k o => ?_, fun k o hget => ?_, hpsks⟩, hafter⟩
  · rw [hkeys, hafter]
    constructor
    · intro hget
      split_ifs at hget with hk
      exact .inl ⟨(h.keys k o).mp hget, fun hrow => hk hrow.2⟩
    · rintro (⟨hrow, hkept⟩ | ⟨r₀, -, -, -, -, heq⟩)
      · rw [if_neg fun hk => hkept ⟨rfl, hk⟩]
        exact (h.keys k o).mpr hrow
      · exact Bool.noConfusion (congrArg FlaggedRow.flag heq)
  · rw [hkeys] at hget
    split_ifs at hget with hk
    obtain ⟨hold, hold'⟩ := h.notes k o hget
    have hnone : removed.get? k = none := by rw [hremoved, if_neg hk]
    rw [hdropped, hdeleted, dropKeysOf]
    simp only [Dict.get?_union, Dict.get?_filterKeys, hold, hold', hnone, ite_self, Option.or_none]
    exact ⟨trivial, trivial⟩

theorem Tidy.saveIf {b : Bool} (h : m.Tidy) (hok : Keymat.saveIf m b = .ok m') :
    m'.Tidy ∧ (∀ r, m'.After r ↔ m.After r) ∧ ∀ r, m'.presharedKeys.After r ↔ m.presharedKeys.After r := by
  cases b with
  | false =>
    cases hok
    exact ⟨h, fun _ => .rfl, fun _ => .rfl⟩
  | true =>
    obtain ⟨t, psks, ht, hpsks, rfl⟩ := save_eq_ok hok
    obtain ⟨-, hpairs, htidy⟩ := VpnKeysMap.save_rows hpsks
    have hafter : ∀ r, After { m with
        presharedKeys := psks, dropped := ∅, deleted := ∅, table := t.deleteAll (objectIds m.deleted) } r ↔ m.After r :=
      fun r => FlaggedTable.after_nil.trans (FlaggedTable.mem_flagAll_deleteAll ht)
    refine ⟨⟨fun k o => ?_, fun _ _ _ => ⟨rfl, rfl⟩, htidy h.psks⟩, hafter, hpairs⟩
    rw [hafter]
    exact h.keys k o

/-- Purging the peers that are gone removes their keys. -/
theorem Tidy.purgeGonePeers (h : m.Tidy) {peerIds gone : List ℕ} {delete : Bool} {deleteMap : ℕ → Bool}
    (hok : m.purgeGonePeers peerIds delete deleteMap = .ok (gone, m')) :
    m'.Tidy ∧ (∀ r, m'.After r ↔ FlaggedTable.Removal m.After (KeyPlace.Gone peerIds)
      (fun k => deletesKey delete deleteMap k) r) ∧
    ∀ r, m'.presharedKeys.After r ↔ FlaggedTable.Removal m.presharedKeys.After
      (VpnKeysMap.At fun p => p.1 ∈ m.gonePeers peerIds ∨ p.2 ∈ m.gonePeers peerIds)
      (fun k => VpnKeysMap.deletesPair delete deleteMap k.1) r := by
  unfold Keymat.purgeGonePeers at hok
  obtain ⟨psks, hpsks, hok⟩ := Except.bind_eq_ok_iff.mp hok
  obtain ⟨m₁, hsaveIf, heq⟩ := Except.bind_eq_ok_iff.mp hok
  cases heq
  obtain ⟨hpairs, hpsksAfter⟩ := purgePeers_after h.psks hpsks
  let m₀ : Keymat := { m.dropKeysOf (m.keys.filterKeys fun k => ∃ p ∈ m.gonePeers peerIds, k = .peer p)
      (deletesKey delete deleteMap) with
    peerKeys := m.peerKeys.filterKeys (· ∈ peerIds), presharedKeys := psks }
  obtain ⟨hremoved, hafter⟩ := h.removed m₀ (get?_gone peerIds) rfl rfl rfl
    (get?_filterKeys_peerKeys peerIds) hpairs
  obtain ⟨htidy, hafter', hpsksAfter'⟩ := hremoved.saveIf hsaveIf
  exact ⟨htidy, fun r => (hafter' r).trans (hafter r), fun r => (hpsksAfter' r).trans (hpsksAfter r)⟩

theorem Tidy.dropKeys (h : m.Tidy) {delete : Bool} {deleteMap : ℕ → Bool} {n : ℕ}
    (hok : m.dropKeys delete deleteMap = .ok (n, m')) :
    m'.Tidy ∧ (∀ r, m'.After r ↔
      FlaggedTable.Removal m.After (fun _ => True) (fun k => deletesKey delete deleteMap k) r) ∧
    ∀ r, m'.presharedKeys.After r ↔ FlaggedTable.Removal m.presharedKeys.After (VpnKeysMap.At fun _ => True)
      (fun k => VpnKeysMap.deletesPair delete deleteMap k.1) r := by
  unfold Keymat.dropKeys at hok
  obtain ⟨⟨n', psks⟩, hpsks, hok⟩ := Except.bind_eq_ok_iff.mp hok
  obtain ⟨m₁, hsaveIf, heq⟩ := Except.bind_eq_ok_iff.mp hok
  cases heq
  obtain ⟨hpairs, hpsksAfter⟩ := h.psks.dropKeys hpsks
  let m₀ : Keymat := { m.dropKeysOf m.keys (deletesKey delete deleteMap) with
    rootKey := none, peerKeys := ∅, presharedKeys := psks }
  have hnone : ∀ k, m₀.keys.get? k = none := fun k => by
    cases k with
    | root => exact get?_keys_root
    | peer p => exact get?_keys_peer p
  obtain ⟨hremoved, hafter⟩ := h.removed m₀ (S := fun _ => True) (fun k => (if_pos trivial).symm) rfl rfl rfl
    (fun k => (hnone k).trans (if_pos trivial).symm) hpairs
  obtain ⟨htidy, hafter', hpsksAfter'⟩ := hremoved.saveIf hsaveIf
  exact ⟨htidy, fun r => (hafter' r).trans (hafter r), fun r => (hpsksAfter' r).trans (hpsksAfter r)⟩

/-! ### When removing keys succeeds -/

/-- No key that is noted as dropped has a flagged row, and no flagged row is noted as deleted. -/
structure Clear (m : Keymat) : Prop where
  dropped : ∀ r ∈ m.table.rows, r.id ∈ objectIds m.dropped → ∀ r' ∈ m.table.rows, r'.key = r.key → r'.flag = false
  deleted : ∀ r ∈ m.table.rows, r.id ∈ objectIds m.deleted → r.flag = false
  psks : m.presharedKeys.Clear

theorem clear_load (rows : KeymatRows) : (load rows).Clear := ⟨nofun, nofun, VpnKeysMap.clear_load _⟩

theorem Clear.exists_save (h : m.Clear) : ∃ m', m.save = .ok m' ∧ m'.Clear := by
  obtain ⟨t, ht⟩ := FlaggedTable.exists_flagAll fun r hr hid r' hr' _ hkey => h.dropped r hr hid r' hr' hkey
  obtain ⟨psks, hpsks, hclear⟩ := h.psks.exists_save
  refine ⟨{ m with presharedKeys := psks, dropped := ∅, deleted := ∅, table := t.deleteAll (objectIds m.deleted) },
    ?_, nofun, nofun, hclear⟩
  unfold save
  rw [ht, hpsks]
  rfl

theorem Clear.exists_saveIf (h : m.Clear) (b : Bool) : ∃ m', saveIf m b = .ok m' ∧ m'.Clear := by
  cases b with
  | false => exact ⟨m, rfl, h⟩
  | true => exact h.exists_save

/-- The keys at some places can be flagged: none has a flagged row. -/
def Droppable (m : Keymat) (removed : KeyPlace → Prop) (deletes : KeyPlace → Bool) : Prop :=
  ∀ k, removed k → deletes k = false → m.keys.get? k ≠ none → ∀ r, m.After r → r.key = k → r.flag = false

theorem Clear.removed (h : m.Clear) (htidy : m.Tidy) {S : KeyPlace → Prop} [DecidablePred S]
    {removed : Dict KeyPlace KeyObject} (hremoved : ∀ k, removed.get? k = if S k then m.keys.get? k else none)
    {deletes : KeyPlace → Bool} (hdrop : m.Droppable S deletes)
    (hdropped : m'.dropped = (m.dropKeysOf removed deletes).dropped)
    (hdeleted : m'.deleted = (m.dropKeysOf removed deletes).deleted) (htable : m'.table = m.table)
    (hpsks : m'.presharedKeys.Clear) : m'.Clear := by
  -- a note that is new is about a row without flag
  have hnew : ∀ k o, removed.get? k = some o →
      S k ∧ m.keys.get? k = some o ∧ (⟨o.id, k, o.value, false⟩ : FlaggedRow _ _) ∈ m.table.rows := by
    intro k o hget
    rw [hremoved] at hget
    split_ifs at hget with hk
    exact ⟨hk, hget, ((FlaggedTable.after_iff_of_not_flag rfl).mp ((htidy.keys k o).mp hget)).1⟩
  refine ⟨fun r hr hid r' hr' hkey => ?_, fun r hr hid => ?_, hpsks⟩
  · rw [htable] at hr hr'
    rw [hdropped] at hid
    obtain ⟨k, o, hget, hoid⟩ := mem_objectIds.mp hid
    change (m.dropped.union (removed.filterKeys fun k => !deletes k)).get? k = some o at hget
    rw [Dict.get?_union, Option.or_eq_some_iff] at hget
    rcases hget with hget | ⟨-, hget⟩
    · exact h.dropped r hr (mem_objectIds.mpr ⟨k, o, hget, hoid⟩) r' hr' hkey
    · rw [Dict.get?_filterKeys] at hget
      split_ifs at hget with hdel
      obtain ⟨hk, hcontent, hrow⟩ := hnew k o hget
      obtain rfl := m.table.eq_of_id hrow hr hoid
      by_contra hflag
      refine hflag (hdrop k hk (by simpa using hdel) (by rw [hcontent]; nofun) r'
        ⟨fun hmem => hflag (h.deleted r' hr' hmem), ?_⟩ hkey)
      by_cases hmem : r'.id ∈ objectIds m.dropped
      · exact .inr ⟨r', hr', hmem, by rw [Bool.not_eq_false] at hflag; cases r'; cases hflag; rfl⟩
      · exact .inl ⟨hr', hmem⟩
  · rw [htable] at hr
    rw [hdeleted] at hid
    obtain ⟨k, o, hget, hoid⟩ := mem_objectIds.mp hid
    change (m.deleted.union (removed.filterKeys deletes)).get? k = some o at hget
    rw [Dict.get?_union, Option.or_eq_some_iff] at hget
    rcases hget with hget | ⟨-, hget⟩
    · exact h.deleted r hr (mem_objectIds.mpr ⟨k, o, hget, hoid⟩)
    · rw [Dict.get?_filterKeys] at hget
      split_ifs at hget
      obtain ⟨-, -, hrow⟩ := hnew k o hget
      rw [← m.table.eq_of_id hrow hr hoid]

theorem Clear.exists_dropKeys (h : m.Clear) (htidy : m.Tidy) (delete : Bool) (deleteMap : ℕ → Bool)
    (hkeys : m.Droppable (fun _ => True) (deletesKey delete deleteMap))
    (hpsks : m.presharedKeys.Droppable (fun _ => True) (VpnKeysMap.deletesPair delete deleteMap)) :
    ∃ n m', m.dropKeys delete deleteMap = .ok (n, m') ∧ m'.Clear := by
  obtain ⟨n, psks, hdrop, hclear⟩ := h.psks.exists_dropKeys htidy.psks hpsks
  let m₁ : Keymat := { m.dropKeysOf m.keys (deletesKey delete deleteMap) with
    rootKey := none, peerKeys := ∅, presharedKeys := psks }
  have hclear₁ : m₁.Clear :=
    h.removed htidy (S := fun _ => True) (fun k => (if_pos trivial).symm) hkeys rfl rfl rfl hclear
  obtain ⟨m', hsaveIf, hclear'⟩ := hclear₁.exists_saveIf (m.keys.keys.any (deletesKey delete deleteMap))
  refine ⟨m.keys.size + n, m', ?_, hclear'⟩
  unfold dropKeys
  simp only [hdrop, Except.ok_bind]
  change (saveIf m₁ _ >>= _) = _
  rw [hsaveIf]
  rfl

theorem exists_purgePeers {psks : VpnKeysMap} (h : psks.Tidy) (hclear : psks.Clear) {peers : List ℕ} {delete : Bool}
    {deleteMap : ℕ → Bool} (hdrop : psks.Droppable (fun p => p.1 ∈ peers ∨ p.2 ∈ peers)
      (VpnKeysMap.deletesPair delete deleteMap)) :
    ∃ psks', purgePeers psks peers delete deleteMap = .ok psks' ∧ psks'.Clear := by
  induction peers generalizing psks with
  | nil => exact ⟨psks, rfl, hclear⟩
  | cons peer peers ih =>
    have hfirst : psks.Droppable (fun p => peer = p.1 ∨ peer = p.2) (VpnKeysMap.deletesPair delete deleteMap) :=
      fun p hp => hdrop p (hp.imp (fun heq => by simp [heq]) fun heq => by simp [heq])
    obtain ⟨purged, psks₁, hpurge, hclear₁⟩ := hclear.exists_purgePeer h hfirst
    obtain ⟨htidy₁, hafter⟩ := h.purgePeer hpurge
    obtain ⟨psks', hrest, hclear'⟩ := ih htidy₁ hclear₁ fun p hp hdel hcontent r hr hkey => by
      -- the pair is still there, so it was not purged
      obtain ⟨keys, hget⟩ := Option.ne_none_iff_exists'.mp hcontent
      obtain ⟨o, rfl, ho⟩ := (htidy₁.content p keys).mp hget
      have hactive : psks.After ⟨o.id, (p, 0), o.value, false⟩ ∧ ¬ (peer = p.1 ∨ peer = p.2) := by
        rcases (hafter _).mp ho with ⟨ho, hkept⟩ | ⟨r₀, -, -, -, -, heq⟩
        · exact ⟨ho, fun hmem => hkept ⟨rfl, rfl, hmem⟩⟩
        · exact Bool.noConfusion (congrArg FlaggedRow.flag heq)
      have hold : psks.content.get? p ≠ none := by
        rw [(h.content p [o]).mpr ⟨o, rfl, hactive.1⟩]
        nofun
      rcases (hafter r).mp hr with ⟨hr, -⟩ | ⟨r₀, -, -, hat, -, rfl⟩
      · exact hdrop p (hp.imp (List.mem_cons_of_mem _) (List.mem_cons_of_mem _)) hdel hold r hr hkey
      · have hpair : r₀.key.1 = p := congrArg Prod.fst hkey
        exact absurd (hpair ▸ hat.2) hactive.2
    refine ⟨psks', ?_, hclear'⟩
    unfold purgePeers at hrest ⊢
    rw [List.foldlM_cons, hpurge]
    exact hrest

theorem Clear.exists_purgeGonePeers (h : m.Clear) (htidy : m.Tidy) (peerIds : List ℕ) (delete : Bool)
    (deleteMap : ℕ → Bool) (hkeys : m.Droppable (KeyPlace.Gone peerIds) (deletesKey delete deleteMap))
    (hpsks : m.presharedKeys.Droppable (fun p => p.1 ∈ m.gonePeers peerIds ∨ p.2 ∈ m.gonePeers peerIds)
      (VpnKeysMap.deletesPair delete deleteMap)) :
    ∃ gone m', m.purgeGonePeers peerIds delete deleteMap = .ok (gone, m') ∧ m'.Clear := by
  obtain ⟨psks, hpurge, hclear⟩ := exists_purgePeers htidy.psks h.psks hpsks
  let m₁ : Keymat := { m.dropKeysOf (m.keys.filterKeys fun k => ∃ p ∈ m.gonePeers peerIds, k = .peer p)
      (deletesKey delete deleteMap) with
    peerKeys := m.peerKeys.filterKeys (· ∈ peerIds), presharedKeys := psks }
  have hclear₁ : m₁.Clear := h.removed htidy (get?_gone peerIds) hkeys rfl rfl rfl hclear
  obtain ⟨m', hsaveIf, hclear'⟩ :=
    hclear₁.exists_saveIf ((m.gonePeers peerIds).any fun p => deletesKey delete deleteMap (.peer p))
  refine ⟨(m.gonePeers peerIds).filter (fun p => deletesKey delete deleteMap (.peer p)) ++
    (m.gonePeers peerIds).filter (fun p => !deletesKey delete deleteMap (.peer p)), m', ?_, hclear'⟩
  unfold purgeGonePeers
  simp only [hpurge, Except.ok_bind]
  change (saveIf m₁ _ >>= _) = _
  rw [hsaveIf]
  rfl

/-! ### The last ids -/

/-- The last ids of the two tables. -/
def lastIds (m : Keymat) : ℕ × ℕ := (m.table.lastId, m.presharedKeys.table.lastId)

theorem lastIds_save (h : m.save = .ok m') : m'.lastIds = m.lastIds := by
  obtain ⟨t, psks, ht, hpsks, rfl⟩ := save_eq_ok h
  exact Prod.ext (FlaggedTable.lastId_deleteAll.trans (FlaggedTable.lastId_flagAll ht)) (VpnKeysMap.lastId_save hpsks)

theorem lastIds_saveIf {b : Bool} (h : saveIf m b = .ok m') : m'.lastIds = m.lastIds := by
  cases b with
  | false =>
    cases h
    rfl
  | true => exact lastIds_save h

theorem lastIds_dropKeys {delete : Bool} {deleteMap : ℕ → Bool} {n : ℕ}
    (h : m.dropKeys delete deleteMap = .ok (n, m')) : m'.lastIds = m.lastIds := by
  obtain ⟨⟨n', psks⟩, hpsks, h⟩ := Except.bind_eq_ok_iff.mp h
  obtain ⟨m₁, hsave, heq⟩ := Except.bind_eq_ok_iff.mp h
  cases heq
  rw [lastIds_saveIf hsave]
  exact Prod.ext rfl (VpnKeysMap.lastId_dropKeys hpsks)

theorem lastIds_purgeGonePeers {peerIds gone : List ℕ} {delete : Bool} {deleteMap : ℕ → Bool}
    (h : m.purgeGonePeers peerIds delete deleteMap = .ok (gone, m')) : m'.lastIds = m.lastIds := by
  obtain ⟨psks, hpsks, h⟩ := Except.bind_eq_ok_iff.mp h
  obtain ⟨m₁, hsave, heq⟩ := Except.bind_eq_ok_iff.mp h
  cases heq
  rw [lastIds_saveIf hsave]
  refine Prod.ext rfl (Fold.foldlM_invariant (P := fun psks => psks.table.lastId = m.presharedKeys.table.lastId)
    (fun psks₁ psks₂ peer _ hb hstep => ?_) rfl hpsks)
  obtain ⟨⟨purged, psks₃⟩, hpurge, heq⟩ := Except.bind_eq_ok_iff.mp hstep
  cases heq
  exact (VpnKeysMap.lastId_purgePeer hpurge).trans hb

/-! ### Asserting keys -/

/-- The places of the root and of some peers. -/
def Wanted (peerIds : List ℕ) : KeyPlace → Prop
  | .root => True
  | .peer p => p ∈ peerIds

/-- The pairs of the root and some peers. -/
def WantedPair (peerIds : List ℕ) (k : (ℕ × ℕ) × ℕ) : Prop := ∃ p ∈ peerIds, k = ((0, p), 0)

section assert
variable (source : ℕ → String)

theorem get?_table (h : m.Tidy) (hsettled : m.Settled) (k : KeyPlace) :
    m.table.get? k false = (m.keys.get? k).map KeyObject.value := by
  ext v
  rw [FlaggedTable.get?_eq_some_iff, Option.map_eq_some_iff]
  constructor
  · rintro ⟨⟨id, key, value, flag⟩, hr, rfl, rfl, rfl⟩
    exact ⟨⟨id, value⟩, (h.keys _ _).mpr (hsettled.after_iff.mpr hr), rfl⟩
  · rintro ⟨o, hget, rfl⟩
    exact ⟨_, hsettled.after_iff.mp ((h.keys k o).mp hget), rfl, rfl, rfl⟩

/-- Key material after a key was inserted at a place that had none. -/
structure Inserted (m : Keymat) (k : KeyPlace) (m' : Keymat) : Prop where
  keys : ∀ k', m'.keys.get? k' =
    if k = k' then some ⟨m.table.lastId + 1, source (m.table.lastId + 1)⟩ else m.keys.get? k'
  rows : m'.table.rows = m.table.rows ++ [⟨m.table.lastId + 1, k, source (m.table.lastId + 1), false⟩]
  dropped : m'.dropped = m.dropped
  deleted : m'.deleted = m.deleted
  psks : m'.presharedKeys = m.presharedKeys

variable {source}

theorem Inserted.tidy {k : KeyPlace} (hins : Inserted source m k m') (h : m.Tidy) (hsettled : m.Settled)
    (hnone : m.keys.get? k = none) : m'.Tidy ∧ m'.Settled := by
  have hsettled' : m'.Settled :=
    ⟨hins.dropped.trans hsettled.dropped, hins.deleted.trans hsettled.deleted, by rw [hins.psks]; exact hsettled.psks⟩
  refine ⟨⟨fun k' o => ?_, fun k' o _ => ?_, by rw [hins.psks]; exact h.psks⟩, hsettled'⟩
  · rw [hsettled'.after_iff, hins.keys, hins.rows, List.mem_append, List.mem_singleton]
    by_cases hk : k = k'
    · subst hk
      rw [if_pos rfl]
      constructor
      · rintro ⟨rfl⟩
        exact .inr rfl
      · rintro (hr | heq)
        · have := (h.keys k o).mpr (hsettled.after_iff.mpr hr)
          rw [hnone] at this
          cases this
        · cases o
          cases heq
          rfl
    · rw [if_neg hk, h.keys, hsettled.after_iff]
      constructor
      · exact .inl
      · rintro (hr | heq)
        · exact hr
        · exact absurd (congrArg FlaggedRow.key heq).symm hk
  · rw [hsettled'.dropped, hsettled'.deleted]
    exact ⟨rfl, rfl⟩

variable (source)

theorem exists_newKey (h : m.Tidy) (hsettled : m.Settled) {k : KeyPlace} (hnone : m.keys.get? k = none) :
    ∃ t', newKey source m.table k = .ok (⟨m.table.lastId + 1, source (m.table.lastId + 1)⟩, t') ∧
      FlaggedTable.Grows source (· = k) m.table t' ∧
      t'.rows = m.table.rows ++ [⟨m.table.lastId + 1, k, source (m.table.lastId + 1), false⟩] := by
  obtain ⟨t', hinsert, hgrows, hrows⟩ :=
    FlaggedTable.exists_insert_grows source (show m.table.get? k false = none by rw [get?_table h hsettled, hnone]; rfl)
  exact ⟨t', by rw [newKey, hinsert], hgrows, hrows⟩

theorem grows_of_get? (h : m.Tidy) (hsettled : m.Settled) {k : KeyPlace} {o : KeyObject}
    (hget : m.keys.get? k = some o) : FlaggedTable.Grows source (· = k) m.table m.table :=
  .of_get? (v := o.value) source (by rw [get?_table h hsettled, hget]; rfl)

theorem exists_assertRoot (h : m.Tidy) (hsettled : m.Settled) :
    ∃ m', m.assertRoot source = .ok m' ∧ m'.Tidy ∧ m'.Settled ∧
      FlaggedTable.Grows source (· = .root) m.table m'.table ∧ m'.presharedKeys = m.presharedKeys := by
  cases hget : m.rootKey with
  | some o =>
    exact ⟨m, by rw [assertRoot, hget], h, hsettled,
      grows_of_get? source h hsettled (by rw [get?_keys_root]; exact hget), rfl⟩
  | none =>
    have hnone : m.keys.get? .root = none := by rw [get?_keys_root]; exact hget
    obtain ⟨t', hnew, hgrows, hrows⟩ := exists_newKey source h hsettled hnone
    let m' : Keymat := { m with rootKey := some ⟨m.table.lastId + 1, source (m.table.lastId + 1)⟩, table := t' }
    have hins : Inserted source m .root m' := by
      refine ⟨fun k => ?_, hrows, rfl, rfl, rfl⟩
      cases k with
      | root => rw [get?_keys_root, if_pos rfl]
      | peer p => rw [get?_keys_peer, get?_keys_peer, if_neg nofun]
    obtain ⟨htidy, hsettled'⟩ := hins.tidy h hsettled hnone
    refine ⟨m', ?_, htidy, hsettled', hgrows, rfl⟩
    rw [assertRoot, hget]
    simp only [hnew, Except.ok_bind]
    rfl

theorem exists_assertPeerKey (h : m.Tidy) (hsettled : m.Settled) (peer : ℕ) :
    ∃ m', m.assertPeerKey source peer = .ok m' ∧ m'.Tidy ∧ m'.Settled ∧
      FlaggedTable.Grows source (· = .peer peer) m.table m'.table ∧ m'.presharedKeys = m.presharedKeys := by
  cases hget : m.peerKeys.get? peer with
  | some o =>
    exact ⟨m, by rw [assertPeerKey, hget], h, hsettled,
      grows_of_get? source h hsettled (by rw [get?_keys_peer]; exact hget), rfl⟩
  | none =>
    have hnone : m.keys.get? (.peer peer) = none := by rw [get?_keys_peer]; exact hget
    obtain ⟨t', hnew, hgrows, hrows⟩ := exists_newKey source h hsettled hnone
    let m' : Keymat := { m with
      peerKeys := m.peerKeys.set peer ⟨m.table.lastId + 1, source (m.table.lastId + 1)⟩, table := t' }
    have hins : Inserted source m (.peer peer) m' := by
      refine ⟨fun k => ?_, hrows, rfl, rfl, rfl⟩
      cases k with
      | root => rw [get?_keys_root, get?_keys_root, if_neg nofun]
      | peer p =>
        rw [get?_keys_peer, get?_keys_peer]
        change (m.peerKeys.set peer _).get? p = _
        rw [Dict.get?_set]
        simp only [KeyPlace.peer.injEq]
    obtain ⟨htidy, hsettled'⟩ := hins.tidy h hsettled hnone
    refine ⟨m', ?_, htidy, hsettled', hgrows, rfl⟩
    rw [assertPeerKey, hget]
    simp only [hnew, Except.ok_bind]
    rfl

theorem exists_assertPeer (h : m.Tidy) (hsettled : m.Settled) (peer : ℕ) :
    ∃ m', m.assertPeer source peer = .ok m' ∧ m'.Tidy ∧ m'.Settled ∧
      FlaggedTable.Grows source (· = .peer peer) m.table m'.table ∧
      FlaggedTable.Grows source (· = ((0, peer), 0)) m.presharedKeys.table m'.presharedKeys.table := by
  obtain ⟨m₁, hkey, htidy, hsettled₁, hgrows, hpsks⟩ := exists_assertPeerKey source h hsettled peer
  obtain ⟨x, psks, hpair, htidy', hsettled', hgrows'⟩ := htidy.psks.exists_assertPair hsettled₁.psks source 0 peer
  rw [hpsks] at hgrows'
  refine ⟨{ m₁ with presharedKeys := psks }, ?_, ⟨htidy.keys, htidy.notes, htidy'⟩,
    ⟨hsettled₁.dropped, hsettled₁.deleted, hsettled'⟩, hgrows, ?_⟩
  · rw [assertPeer, hkey, Except.ok_bind, hpair]
    rfl
  · have hpair : pairKey 0 peer = (0, peer) := by simp [pairKey]
    rwa [hpair] at hgrows'

/-- Asserting the keys of some peers adds the rows of the root and of these peers that were missing. -/
theorem exists_assertKeys (h : m.Tidy) (hsettled : m.Settled) (peerIds : List ℕ) :
    ∃ m', m.assertKeys source peerIds = .ok m' ∧ m'.Tidy ∧ m'.Settled ∧
      FlaggedTable.Grows source (Wanted peerIds) m.table m'.table ∧
      FlaggedTable.Grows source (WantedPair peerIds) m.presharedKeys.table m'.presharedKeys.table := by
  have hpeers : ∀ m : Keymat, m.Tidy → m.Settled →
      ∃ m', peerIds.foldlM (assertPeer source) m = .ok m' ∧ m'.Tidy ∧ m'.Settled ∧
        FlaggedTable.Grows source (fun k => ∃ p ∈ peerIds, k = .peer p) m.table m'.table ∧
        FlaggedTable.Grows source (WantedPair peerIds) m.presharedKeys.table m'.presharedKeys.table := by
    induction peerIds with
    | nil =>
      intro m h hsettled
      exact ⟨m, rfl, h, hsettled, (FlaggedTable.Grows.refl source _).congr fun _ => by simp,
        (FlaggedTable.Grows.refl source _).congr fun _ => by simp [WantedPair]⟩
    | cons peer rest ih =>
      intro m h hsettled
      obtain ⟨m₁, hpeer, htidy, hsettled₁, hkeys, hpsks⟩ := exists_assertPeer source h hsettled peer
      obtain ⟨m', hrest, htidy', hsettled', hkeys', hpsks'⟩ := ih m₁ htidy hsettled₁
      refine ⟨m', by rw [List.foldlM_cons, hpeer]; exact hrest, htidy', hsettled',
        (hkeys.trans hkeys').congr fun k => ?_, (hpsks.trans hpsks').congr fun k => ?_⟩
      · simp
      · simp [WantedPair]
  obtain ⟨m₁, hroot, htidy, hsettled₁, hkeys, hpsks⟩ := exists_assertRoot source h hsettled
  obtain ⟨m', hrest, htidy', hsettled', hkeys', hpsks'⟩ := hpeers m₁ htidy hsettled₁
  refine ⟨m', by rw [assertKeys, hroot]; exact hrest, htidy', hsettled', (hkeys.trans hkeys').congr fun k => ?_, ?_⟩
  · cases k with
    | root => simp [Wanted]
    | peer p => simp [Wanted]
  · rwa [hpsks] at hpsks'

end assert

end Keymat

end Uno
