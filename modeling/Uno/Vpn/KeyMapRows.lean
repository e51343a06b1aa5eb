import Uno.Vpn.KeyMapSync

/-!
# What removing preshared keys does to their rows

A map of preshared keys as it is loaded from its table, and the rows its table has once the notes of the map
are saved. Purging a peer or dropping all keys comes down to a `Removal` of rows, however often the map is
saved in between.
-/

namespace Uno

open PairedValuesMap

namespace VpnKeysMap

/-- `_load_keys`: the preshared keys of a table. The key of a pair has the place 0. -/
def loadKeys (table : KeysTable) (dropped : Bool) : PairedValuesMap (List KeyObject) :=
  (table.rows.filter fun r => r.flag = dropped ∧ r.key.2 = 0).foldl (fun d r => d.set r.key.1 [⟨r.id, r.value⟩]) ∅

/-- The active preshared keys of a table, as a fresh map loads them. -/
def load (table : KeysTable) : VpnKeysMap where
  content := loadKeys table false
  dropped := ∅
  deleted := ∅
  table := table

/-- With `prefer_dropped`, a dropped key has precedence over the active one. -/
def loadRekeyed (table : KeysTable) : VpnKeysMap where
  content := (loadKeys table true).union (loadKeys table false)
  dropped := ∅
  deleted := ∅
  table := table

/-- The rows of the table once the notes are saved. -/
def After (m : VpnKeysMap) : FlaggedRow ((ℕ × ℕ) × ℕ) String → Prop := m.table.After (ids m.dropped) (ids m.deleted)

/-- The keys in memory are those of the rows without flag that stay, and there is no note about them. -/
structure Tidy (m : VpnKeysMap) : Prop where
  content : ∀ p keys, m.content.get? p = some keys ↔ ∃ o, keys = [o] ∧ m.After ⟨o.id, (p, 0), o.value, false⟩
  notes : ∀ p keys, m.content.get? p = some keys → m.dropped.get? p = none ∧ m.deleted.get? p = none

variable {m m' : VpnKeysMap} {r : FlaggedRow ((ℕ × ℕ) × ℕ) String} {table : KeysTable}

@[simp] theorem after_load : (load table).After r ↔ r ∈ table.rows := by
  rw [After]
  exact FlaggedTable.after_nil

theorem get?_loadKeys {b : Bool} {p : ℕ × ℕ} {keys : List KeyObject} :
    (loadKeys table b).get? p = some keys ↔
      ∃ o, keys = [o] ∧ (⟨o.id, (p, 0), o.value, b⟩ : FlaggedRow _ _) ∈ table.rows := by
  let rows := table.rows.filter fun r => r.flag = b ∧ r.key.2 = 0
  have hmem : ∀ r, r ∈ rows ↔ r ∈ table.rows ∧ r.flag = b ∧ r.key.2 = 0 := fun r => by
    rw [List.mem_filter, decide_eq_true_eq]
  let places : List ((ℕ × ℕ) × List KeyObject) := rows.map fun r => (r.key.1, [⟨r.id, r.value⟩])
  have hnodup : (places.map Prod.fst).Nodup := by
    rw [List.map_map]
    refine List.Nodup.map_on (fun r hr r' hr' heq => ?_) ((List.Nodup.of_map _ table.ids_nodup).filter _)
    obtain ⟨hr, hflag, hplace⟩ := (hmem r).mp hr
    obtain ⟨hr', hflag', hplace'⟩ := (hmem r').mp hr'
    exact table.eq_of_key hr hr' (Prod.ext heq (hplace.trans hplace'.symm)) (hflag.trans hflag'.symm)
  have hcontent : (loadKeys table b).entries = places := by
    have hset := Dict.foldl_set places ∅ (by rwa [Dict.entries_empty, List.nil_append])
    rw [List.foldl_map] at hset
    exact hset
  rw [Dict.get?_eq_some_iff, hcontent, List.mem_map]
  constructor
  · rintro ⟨r, hr, heq⟩
    obtain ⟨hrow, hflag, hplace⟩ := (hmem r).mp hr
    obtain ⟨id, ⟨p', i⟩, value, flag⟩ := r
    obtain ⟨rfl, rfl⟩ := Prod.mk.inj heq
    obtain rfl : flag = b := hflag
    obtain rfl : i = 0 := hplace
    exact ⟨_, rfl, hrow⟩
  · rintro ⟨o, rfl, hr⟩
    exact ⟨_, (hmem _).mpr ⟨hr, rfl, rfl⟩, rfl⟩

theorem tidy_load (table : KeysTable) : (load table).Tidy := by
  refine ⟨fun p keys => ?_, fun _ _ _ => ⟨rfl, rfl⟩⟩
  simp only [after_load]
  exact get?_loadKeys

theorem values_loadKeys (table : KeysTable) (b : Bool) (p : ℕ × ℕ) :
    ((loadKeys table b).get? p).map (List.map KeyObject.value) = (table.get? (p, 0) b).map fun v => [v] := by
  ext values
  simp only [Option.map_eq_some_iff, get?_loadKeys, FlaggedTable.get?_eq_some_iff]
  constructor
  · rintro ⟨_, ⟨o, rfl, hr⟩, rfl⟩
    exact ⟨o.value, ⟨_, hr, rfl, rfl, rfl⟩, rfl⟩
  · rintro ⟨_, ⟨⟨id, key, value, flag⟩, hr, rfl, rfl, rfl⟩, rfl⟩
    exact ⟨_, ⟨⟨id, value⟩, rfl, hr⟩, rfl⟩

/-- The map with `prefer_dropped`, pair by pair. -/
theorem get?_loadRekeyed (table : KeysTable) (p : ℕ × ℕ) :
    ((loadRekeyed table).content.get? p).map (List.map KeyObject.value) =
      ((table.get? (p, 0) true).or (table.get? (p, 0) false)).map fun v => [v] := by
  change (((loadKeys table true).union (loadKeys table false)).get? p).map _ = _
  rw [Dict.get?_union, Option.map_or, values_loadKeys, values_loadKeys, ← Option.map_or]

/-! ### Saving -/

theorem save_eq_ok (h : m.save = .ok m') :
    ∃ t, m.table.flagAll (ids m.dropped) = some t ∧
      m' = { m with dropped := ∅, table := t.deleteAll (ids m.deleted) } := by
  unfold save at h
  split at h
  · rename_i t ht
    exact ⟨t, ht, (Except.ok.inj h).symm⟩
  · cases h

theorem save_rows (h : m.save = .ok m') :
    (∀ r, r ∈ m'.table.rows ↔ m.After r) ∧ (∀ r, m'.After r ↔ m.After r) ∧ (m.Tidy → m'.Tidy) := by
  obtain ⟨t, ht, rfl⟩ := save_eq_ok h
  have hafter : ∀ r, After { m with dropped := ∅, table := t.deleteAll (ids m.deleted) } r ↔ m.After r :=
    fun r => FlaggedTable.after_deleteAll ht
  refine ⟨fun r => FlaggedTable.mem_flagAll_deleteAll ht, hafter, fun htidy => ⟨fun p keys => ?_, fun p keys hget => ?_⟩⟩
  · simp only [hafter]
    exact htidy.content p keys
  · exact ⟨rfl, (htidy.notes p keys hget).2⟩

theorem saveIf_rows {b : Bool} (h : saveIf m b = .ok m') (htidy : m.Tidy) :
    m'.Tidy ∧ ∀ r, m'.After r ↔ m.After r := by
  cases b with
  | false =>
    cases h
    exact ⟨htidy, fun _ => .rfl⟩
  | true =>
    obtain ⟨-, hafter, htidy'⟩ := save_rows h
    exact ⟨htidy' htidy, hafter⟩

/-! ### Removing keys -/

/-- The pairs at places of preshared keys. -/
def At (removed : ℕ × ℕ → Prop) (k : (ℕ × ℕ) × ℕ) : Prop := k.2 = 0 ∧ removed k.1

section removeAll
variable {removed content : PairedValuesMap (List KeyObject)} {deletes : ℕ × ℕ → Bool} {S : ℕ × ℕ → Prop}
  [DecidablePred S]

variable (removed content deletes) in
theorem Tidy.removeAll (h : m.Tidy) (hremoved : ∀ p, removed.get? p = if S p then m.content.get? p else none)
    (hcontent : ∀ p, content.get? p = if S p then none else m.content.get? p) :
    (m.removeAll removed content deletes).Tidy ∧
      ∀ r, (m.removeAll removed content deletes).After r ↔
        FlaggedTable.Removal m.After (At S) (fun k => deletes k.1) r := by
  have hnotes := get?_dropPairs m removed deletes
  have htable : (m.removeAll removed content deletes).table = m.table := table_dropPairs _ _ _
  -- the keys of a removed pair are those of its row
  have hpair : ∀ p keys, removed.get? p = some keys ↔
      S p ∧ ∃ o, keys = [o] ∧ m.After ⟨o.id, (p, 0), o.value, false⟩ := by
    intro p keys
    rw [hremoved, ← h.content]
    by_cases hp : S p
    · simp [hp]
    · simp [hp]
  have hnone : ∀ p keys, removed.get? p = some keys → m.dropped.get? p = none ∧ m.deleted.get? p = none := by
    intro p keys hget
    rw [hremoved] at hget
    split_ifs at hget
    exact h.notes p keys hget
  have hids : ∀ {notes notes' : PairedValuesMap (List KeyObject)} {d : Bool},
      (∀ p, notes'.get? p = (notes.get? p).or (if deletes p = d then removed.get? p else none)) →
      (∀ p keys, removed.get? p = some keys → notes.get? p = none) →
      ∀ i, i ∈ ids notes' ↔ i ∈ ids notes ∨ ∃ r, m.After r ∧ r.flag = false ∧ At S r.key ∧ deletes r.key.1 = d ∧ r.id = i := by
    intro notes notes' d hget hnone i
    rw [mem_ids, mem_ids]
    constructor
    · rintro ⟨p, keys, hp, o, ho, rfl⟩
      rw [hget, Option.or_eq_some_iff] at hp
      rcases hp with hp | ⟨-, hp⟩
      · exact .inl ⟨p, keys, hp, o, ho, rfl⟩
      · split_ifs at hp with hd
        obtain ⟨hS, o', rfl, hafter⟩ := (hpair p keys).mp hp
        obtain rfl := List.mem_singleton.mp ho
        exact .inr ⟨_, hafter, rfl, ⟨rfl, hS⟩, hd, rfl⟩
    · rintro (⟨p, keys, hp, o, ho, rfl⟩ | ⟨⟨id, ⟨p, i⟩, value, flag⟩, hafter, hflag, ⟨hplace, hS⟩, hd, rfl⟩)
      · exact ⟨p, keys, by rw [hget, hp, Option.some_or], o, ho, rfl⟩
      · cases hflag
        cases hplace
        have hp := (hpair p [⟨id, value⟩]).mpr ⟨hS, _, rfl, hafter⟩
        exact ⟨p, _, by rw [hget, hnone p _ hp, Option.none_or, if_pos hd, hp], ⟨id, value⟩, by simp, rfl⟩
  have hafter : ∀ r, (m.removeAll removed content deletes).After r ↔
      FlaggedTable.Removal m.After (At S) (fun k => deletes k.1) r := by
    intro r
    rw [After, htable]
    refine FlaggedTable.after_removal (fun i => ?_) fun i => ?_
    · simp only [Bool.not_eq_true]
      exact hids (fun p => (hnotes p).1) (fun p keys hget => (hnone p keys hget).1) i
    · exact hids (fun p => (hnotes p).2) (fun p keys hget => (hnone p keys hget).2) i
  refine ⟨⟨fun p keys => ?_, fun p keys hget => ?_⟩, hafter⟩
  · change content.get? p = some keys ↔ _
    rw [hcontent]
    constructor
    · intro hget
      split_ifs at hget with hp
      obtain ⟨o, rfl, ho⟩ := (h.content p keys).mp hget
      exact ⟨o, rfl, (hafter _).mpr (.inl ⟨ho, fun hrow => hp hrow.2.2⟩)⟩
    · rintro ⟨o, rfl, ho⟩
      rcases (hafter _).mp ho with ⟨ho, hkept⟩ | ⟨r₀, -, -, -, -, heq⟩
      · rw [if_neg fun hp => hkept ⟨rfl, rfl, hp⟩]
        exact (h.content p [o]).mpr ⟨o, rfl, ho⟩
      · exact Bool.noConfusion (congrArg FlaggedRow.flag heq)
  · change content.get? p = some keys at hget
    rw [hcontent] at hget
    split_ifs at hget with hp
    have hfree : removed.get? p = none := by rw [hremoved, if_neg hp]
    obtain ⟨hdropped, hdeleted⟩ := h.notes p keys hget
    refine ⟨?_, ?_⟩
    · change (m.dropPairs removed deletes).dropped.get? p = none
      rw [(hnotes p).1, hdropped, hfree, ite_self, Option.none_or]
    · change (m.dropPairs removed deletes).deleted.get? p = none
      rw [(hnotes p).2, hdeleted, hfree, ite_self, Option.none_or]

end removeAll

theorem Tidy.purgePeer (h : m.Tidy) {peer : ℕ} {delete : Bool} {deleteMap : ℕ → Bool}
    {purged : PairedValuesMap (List KeyObject)}
    (hok : m.purgePeer .preshared peer delete deleteMap = .ok (purged, m')) :
    m'.Tidy ∧ ∀ r, m'.After r ↔ FlaggedTable.Removal m.After (At fun p => peer = p.1 ∨ peer = p.2)
      (fun k => deletesPair delete deleteMap k.1) r := by
  unfold VpnKeysMap.purgePeer at hok
  rw [if_neg (by simp)] at hok
  obtain ⟨m₁, hsave, heq⟩ := Except.bind_eq_ok_iff.mp hok
  cases heq
  have hremoved := h.removeAll (S := fun p => peer = p.1 ∨ peer = p.2) (m.content.purged peer) (m.content.purgePeer peer)
    (deletesPair delete deleteMap)
    (fun p => by rw [PairedValuesMap.purged, Dict.get?_filterKeys]; simp only [decide_eq_true_eq])
    (fun p => by
      rw [PairedValuesMap.purgePeer, Dict.get?_filterKeys]
      by_cases hp : peer = p.1 ∨ peer = p.2 <;> simp [hp])
  obtain ⟨htidy, hafter⟩ := saveIf_rows hsave hremoved.1
  exact ⟨htidy, fun r => (hafter r).trans (hremoved.2 r)⟩

theorem Tidy.dropKeys (h : m.Tidy) {delete : Bool} {deleteMap : ℕ → Bool} {n : ℕ}
    (hok : m.dropKeys delete deleteMap = .ok (n, m')) :
    m'.Tidy ∧ ∀ r, m'.After r ↔
      FlaggedTable.Removal m.After (At fun _ => True) (fun k => deletesPair delete deleteMap k.1) r := by
  unfold VpnKeysMap.dropKeys at hok
  obtain ⟨m₁, hsave, heq⟩ := Except.bind_eq_ok_iff.mp hok
  cases heq
  have hremoved := h.removeAll (S := fun _ => True) m.content ∅ (deletesPair delete deleteMap) (fun p => by simp) (fun p => by simp)
  obtain ⟨htidy, hafter⟩ := saveIf_rows hsave hremoved.1
  exact ⟨htidy, fun r => (hafter r).trans (hremoved.2 r)⟩

/-! ### When removing keys succeeds -/

/-- No key that is noted as dropped has a flagged row, and no flagged row is noted as deleted. -/
structure Clear (m : VpnKeysMap) : Prop where
  dropped : ∀ r ∈ m.table.rows, r.id ∈ ids m.dropped → ∀ r' ∈ m.table.rows, r'.key = r.key → r'.flag = false
  deleted : ∀ r ∈ m.table.rows, r.id ∈ ids m.deleted → r.flag = false

/-- The keys of a set of pairs can be flagged: none has a flagged row. -/
def Droppable (m : VpnKeysMap) (removed : ℕ × ℕ → Prop) (deletes : ℕ × ℕ → Bool) : Prop :=
  ∀ p, removed p → deletes p = false → m.content.get? p ≠ none → ∀ r, m.After r → r.key = (p, 0) → r.flag = false

theorem clear_load (table : KeysTable) : (load table).Clear := ⟨nofun, nofun⟩

theorem Clear.exists_save (h : m.Clear) : ∃ m', m.save = .ok m' ∧ m'.Clear := by
  obtain ⟨t, ht⟩ := FlaggedTable.exists_flagAll fun r hr hid r' hr' _ hkey => h.dropped r hr hid r' hr' hkey
  refine ⟨{ m with dropped := ∅, table := t.deleteAll (ids m.deleted) }, by unfold save; rw [ht], nofun, ?_⟩
  intro r hr hid
  exact absurd hid (FlaggedTable.mem_deleteAll.mp hr).2

section removeAll
variable {removed content : PairedValuesMap (List KeyObject)} {deletes : ℕ × ℕ → Bool} {S : ℕ × ℕ → Prop}
  [DecidablePred S]

theorem Clear.removeAll (h : m.Clear) (htidy : m.Tidy)
    (hremoved : ∀ p, removed.get? p = if S p then m.content.get? p else none) (hdrop : m.Droppable S deletes) :
    (m.removeAll removed content deletes).Clear := by
  have hnotes := get?_dropPairs m removed deletes
  have htable : (m.removeAll removed content deletes).table = m.table := table_dropPairs _ _ _
  -- a note that is new is about a row without flag
  have hnew : ∀ p keys o, removed.get? p = some keys → o ∈ keys →
      S p ∧ m.content.get? p = some keys ∧ (⟨o.id, (p, 0), o.value, false⟩ : FlaggedRow _ _) ∈ m.table.rows := by
    intro p keys o hget ho
    rw [hremoved] at hget
    split_ifs at hget with hp
    obtain ⟨o', rfl, hafter⟩ := (htidy.content p keys).mp hget
    obtain rfl := List.mem_singleton.mp ho
    exact ⟨hp, hget, ((FlaggedTable.after_iff_of_not_flag rfl).mp hafter).1⟩
  refine ⟨fun r hr hid r' hr' hkey => ?_, fun r hr hid => ?_⟩
  · rw [htable] at hr hr'
    obtain ⟨p, keys, hget, o, ho, hoid⟩ := mem_ids.mp hid
    change (m.dropPairs removed deletes).dropped.get? p = some keys at hget
    rw [(hnotes p).1, Option.or_eq_some_iff] at hget
    rcases hget with hget | ⟨-, hget⟩
    · exact h.dropped r hr (mem_ids.mpr ⟨p, keys, hget, o, ho, hoid⟩) r' hr' hkey
    · split_ifs at hget with hdel
      obtain ⟨hp, hcontent, hrow⟩ := hnew p keys o hget ho
      obtain rfl := m.table.eq_of_id hrow hr hoid
      by_contra hflag
      refine hflag (hdrop p hp hdel (by rw [hcontent]; nofun) r' ⟨fun hmem => hflag (h.deleted r' hr' hmem), ?_⟩ hkey)
      by_cases hmem : r'.id ∈ ids m.dropped
      · exact .inr ⟨r', hr', hmem, by rw [Bool.not_eq_false] at hflag; cases r'; cases hflag; rfl⟩
      · exact .inl ⟨hr', hmem⟩
  · rw [htable] at hr
    obtain ⟨p, keys, hget, o, ho, hoid⟩ := mem_ids.mp hid
    change (m.dropPairs removed deletes).deleted.get? p = some keys at hget
    rw [(hnotes p).2, Option.or_eq_some_iff] at hget
    rcases hget with hget | ⟨-, hget⟩
    · exact h.deleted r hr (mem_ids.mpr ⟨p, keys, hget, o, ho, hoid⟩)
    · split_ifs at hget
      obtain ⟨-, -, hrow⟩ := hnew p keys o hget ho
      rw [← m.table.eq_of_id hrow hr hoid]

theorem Clear.exists_saveIf (h : m.Clear) (b : Bool) : ∃ m', saveIf m b = .ok m' ∧ m'.Clear := by
  cases b with
  | false => exact ⟨m, rfl, h⟩
  | true => exact h.exists_save

end removeAll

theorem Clear.exists_purgePeer (h : m.Clear) (htidy : m.Tidy) {peer : ℕ} {delete : Bool} {deleteMap : ℕ → Bool}
    (hdrop : m.Droppable (fun p => peer = p.1 ∨ peer = p.2) (deletesPair delete deleteMap)) :
    ∃ purged m', m.purgePeer .preshared peer delete deleteMap = .ok (purged, m') ∧ m'.Clear := by
  have hclear : (m.removeAll (m.content.purged peer) (m.content.purgePeer peer)
      (deletesPair delete deleteMap)).Clear := h.removeAll htidy (fun p => by
    rw [PairedValuesMap.purged, Dict.get?_filterKeys]; simp only [decide_eq_true_eq]) hdrop
  obtain ⟨m', hsave, hclear'⟩ :=
    hclear.exists_saveIf ((m.content.purged peer).keys.any (deletesPair delete deleteMap))
  refine ⟨m.content.purged peer, m', ?_, hclear'⟩
  unfold VpnKeysMap.purgePeer
  rw [if_neg (by simp)]
  change (saveIf (m.removeAll _ _ _) _ >>= _) = _
  rw [hsave]
  rfl

theorem Clear.exists_dropKeys (h : m.Clear) (htidy : m.Tidy) {delete : Bool} {deleteMap : ℕ → Bool}
    (hdrop : m.Droppable (fun _ => True) (deletesPair delete deleteMap)) :
    ∃ n m', m.dropKeys delete deleteMap = .ok (n, m') ∧ m'.Clear := by
  have hclear : (m.removeAll m.content ∅ (deletesPair delete deleteMap)).Clear :=
    h.removeAll htidy (fun p => by simp) hdrop
  obtain ⟨m', hsave, hclear'⟩ := hclear.exists_saveIf (m.content.keys.any (deletesPair delete deleteMap))
  refine ⟨m.content.size, m', ?_, hclear'⟩
  unfold VpnKeysMap.dropKeys
  change (saveIf (m.removeAll _ _ _) _ >>= _) = _
  rw [hsave]
  rfl

/-! ### The last id -/

theorem lastId_save (h : m.save = .ok m') : m'.table.lastId = m.table.lastId := by
  obtain ⟨t, ht, rfl⟩ := save_eq_ok h
  exact FlaggedTable.lastId_deleteAll.trans (FlaggedTable.lastId_flagAll ht)

theorem lastId_saveIf {b : Bool} (h : saveIf m b = .ok m') : m'.table.lastId = m.table.lastId := by
  cases b with
  | false =>
    cases h
    rfl
  | true => exact lastId_save h

theorem lastId_purgePeer {peer : ℕ} {delete : Bool} {deleteMap : ℕ → Bool}
    {purged : PairedValuesMap (List KeyObject)} (h : m.purgePeer .preshared peer delete deleteMap = .ok (purged, m')) :
    m'.table.lastId = m.table.lastId := by
  unfold VpnKeysMap.purgePeer at h
  rw [if_neg (by simp)] at h
  obtain ⟨m₁, hsave, heq⟩ := Except.bind_eq_ok_iff.mp h
  cases heq
  rw [lastId_saveIf hsave]
  exact congrArg FlaggedTable.lastId (table_dropPairs _ _ _)

theorem lastId_dropKeys {delete : Bool} {deleteMap : ℕ → Bool} {n : ℕ}
    (h : m.dropKeys delete deleteMap = .ok (n, m')) : m'.table.lastId = m.table.lastId := by
  obtain ⟨m₁, hsave, heq⟩ := Except.bind_eq_ok_iff.mp h
  cases heq
  rw [lastId_saveIf hsave]
  exact congrArg FlaggedTable.lastId (table_dropPairs _ _ _)

/-! ### Asserting pairs -/

/-- A map without notes. -/
def Settled (m : VpnKeysMap) : Prop := m.dropped = ∅ ∧ m.deleted = ∅

theorem Settled.after_iff (h : m.Settled) : m.After r ↔ r ∈ m.table.rows := by
  rw [After, h.1, h.2]
  exact FlaggedTable.after_nil

theorem Tidy.get?_table (h : m.Tidy) (hsettled : m.Settled) (p : ℕ × ℕ) :
    m.table.get? (p, 0) false = none ↔ m.content.get? p = none := by
  rw [FlaggedTable.get?_eq_none_iff, Option.eq_none_iff_forall_ne_some]
  constructor
  · intro hnone keys hget
    obtain ⟨o, -, hafter⟩ := (h.content p keys).mp hget
    exact hnone _ (hsettled.after_iff.mp hafter) rfl rfl
  · rintro hnone ⟨id, key, value, flag⟩ hr rfl rfl
    exact hnone [⟨id, value⟩] ((h.content p _).mpr ⟨⟨id, value⟩, rfl, hsettled.after_iff.mpr hr⟩)

theorem Tidy.exists_assertPair (h : m.Tidy) (hsettled : m.Settled) (source : ℕ → String) (a b : ℕ) :
    ∃ x m', m.assertPair .preshared source a b = .ok (x, m') ∧ m'.Tidy ∧ m'.Settled ∧
      FlaggedTable.Grows source (· = (pairKey a b, 0)) m.table m'.table := by
  cases hget : m.content.get? (pairKey a b) with
  | some keys =>
    refine ⟨(keys, false), m, ?_, h, hsettled, ?_⟩
    · unfold VpnKeysMap.assertPair
      rw [PairedValuesMap.assertPair_of_get? hget]
      rfl
    · obtain ⟨o, -, hafter⟩ := (h.content _ _).mp hget
      exact .of_get? source
        (FlaggedTable.get?_eq_some_iff.mpr ⟨_, hsettled.after_iff.mp hafter, rfl, rfl, rfl⟩)
  | none =>
    obtain ⟨t', hinsert, hgrows, hrows⟩ :=
      FlaggedTable.exists_insert_grows source ((h.get?_table hsettled (pairKey a b)).mpr hget)
    let o : KeyObject := ⟨m.table.lastId + 1, source (m.table.lastId + 1)⟩
    let m' : VpnKeysMap := { m with content := m.content.set (pairKey a b) [o], table := t' }
    have hassert : m.assertPair .preshared source a b = .ok (([o], true), m') := by
      unfold VpnKeysMap.assertPair
      rw [PairedValuesMap.assertPair_of_get?_none hget]
      change (((List.range 1).foldlM (newKey source (pairKey a b)) ([], m.table) >>= _) >>= _) = _
      rw [List.range_one, List.foldlM_cons, newKey, hinsert]
      rfl
    have hsettled' : m'.Settled := hsettled
    refine ⟨([o], true), m', hassert, ⟨fun p keys => ?_, fun p keys _ => ?_⟩, hsettled', hgrows⟩
    · simp only [hsettled'.after_iff]
      change (m.content.set (pairKey a b) [o]).get? p = some keys ↔ ∃ o, keys = [o] ∧ _ ∈ t'.rows
      rw [Dict.get?_set, hrows]
      simp only [List.mem_append, List.mem_singleton]
      by_cases hp : pairKey a b = p
      · subst hp
        rw [if_pos rfl]
        constructor
        · rintro ⟨rfl⟩
          exact ⟨o, rfl, .inr rfl⟩
        · rintro ⟨o', rfl, hr | heq⟩
          · have := (h.content (pairKey a b) [o']).mpr ⟨o', rfl, hsettled.after_iff.mpr hr⟩
            rw [hget] at this
            cases this
          · cases o'
            cases heq
            rfl
      · rw [if_neg hp, h.content]
        simp only [hsettled.after_iff]
        constructor
        · rintro ⟨o', rfl, hr⟩
          exact ⟨o', rfl, .inl hr⟩
        · rintro ⟨o', rfl, hr | heq⟩
          · exact ⟨o', rfl, hr⟩
          · exact absurd (congrArg (fun r => r.key.1) heq).symm hp
    · rw [hsettled'.1, hsettled'.2]
      exact ⟨rfl, rfl⟩

end VpnKeysMap

end Uno
