import Uno.Vpn.KeyMap
import Uno.Lib.Run

/-!
# Key maps stay in step with their rows

Between two saves, the table lags behind memory: rows of dropped pairs have no flag yet, and inside an
operation that deletes, rows of deleted pairs are still there. `Consistent` relates the two, `save` brings
them together (`Consistent.save`), and every action keeps them consistent when it meets its condition.
-/

namespace Uno

open PairedValuesMap

namespace VpnKeysMap

variable {kind : KeysMapKind} {source : ℕ → String}

/-! ### Dropping pairs -/

theorem get?_dropPair (m : VpnKeysMap) (pair : ℕ × ℕ) (keys : List KeyObject) (delete : Bool) (p : ℕ × ℕ) :
    (m.dropPair pair keys delete).dropped.get? p =
        (m.dropped.get? p).or (if pair = p ∧ delete = false then some keys else none) ∧
      (m.dropPair pair keys delete).deleted.get? p =
        (m.deleted.get? p).or (if pair = p ∧ delete = true then some keys else none) := by
  unfold dropPair
  by_cases hp : pair = p
  · subst hp
    cases delete with
    | true =>
      cases hget : m.deleted.get? pair with
      | none => simp
      | some old => simp [hget]
    | false =>
      cases hget : m.dropped.get? pair with
      | none => simp
      | some old => simp [hget]
  · simp only [hp, false_and, if_false, Option.or_none]
    split_ifs
    · exact ⟨rfl, Dict.get?_set_ne _ _ hp⟩
    · exact ⟨Dict.get?_set_ne _ _ hp, rfl⟩
    · exact ⟨rfl, rfl⟩

@[simp] theorem content_dropPair (m : VpnKeysMap) (pair : ℕ × ℕ) (keys : List KeyObject) (delete : Bool) :
    (m.dropPair pair keys delete).content = m.content := by
  unfold dropPair
  split_ifs <;> rfl

@[simp] theorem table_dropPair (m : VpnKeysMap) (pair : ℕ × ℕ) (keys : List KeyObject) (delete : Bool) :
    (m.dropPair pair keys delete).table = m.table := by
  unfold dropPair
  split_ifs <;> rfl

theorem get?_dropPairs (m : VpnKeysMap) (pairs : PairedValuesMap (List KeyObject)) (deletes : ℕ × ℕ → Bool)
    (p : ℕ × ℕ) :
    (m.dropPairs pairs deletes).dropped.get? p =
        (m.dropped.get? p).or (if deletes p = false then pairs.get? p else none) ∧
      (m.dropPairs pairs deletes).deleted.get? p =
        (m.deleted.get? p).or (if deletes p = true then pairs.get? p else none) := by
  unfold dropPairs Dict.get?
  generalize pairs.entries = l
  induction l generalizing m with
  | nil => simp [Dict.lookupEntry]
  | cons e rest ih =>
    obtain ⟨hdropped, hdeleted⟩ := ih (m.dropPair e.1 e.2 (deletes e.1))
    obtain ⟨hdropped₁, hdeleted₁⟩ := get?_dropPair m e.1 e.2 (deletes e.1) p
    unfold Dict.get? at hdropped₁ hdeleted₁
    rw [List.foldl_cons, hdropped, hdeleted, hdropped₁, hdeleted₁, Option.or_assoc, Option.or_assoc]
    by_cases hp : e.1 = p
    · subst hp
      cases hdel : deletes e.1 <;> simp [Dict.lookupEntry]
    · simp [Dict.lookupEntry, hp]

@[simp] theorem table_dropPairs (m : VpnKeysMap) (pairs : PairedValuesMap (List KeyObject))
    (deletes : ℕ × ℕ → Bool) : (m.dropPairs pairs deletes).table = m.table := by
  unfold dropPairs
  generalize pairs.entries = l
  induction l generalizing m with
  | nil => rfl
  | cons e rest ih => rw [List.foldl_cons, ih, table_dropPair]

theorem mem_ids {pairs : PairedValuesMap (List KeyObject)} {id : ℕ} :
    id ∈ ids pairs ↔ ∃ p keys, pairs.get? p = some keys ∧ ∃ o ∈ keys, o.id = id := by
  simp only [ids, Dict.values, List.mem_flatMap, List.mem_map, Dict.get?_eq_some_iff]
  constructor
  · rintro ⟨keys, ⟨⟨p, keys'⟩, hmem, rfl⟩, o, ho, rfl⟩
    exact ⟨p, keys', hmem, o, ho, rfl⟩
  · rintro ⟨p, keys, hmem, o, ho, rfl⟩
    exact ⟨keys, ⟨(p, keys), hmem, rfl⟩, o, ho, rfl⟩

/-! ### Consistency -/

/-- The keys of a pair that have rows without flag: in memory, dropped and not saved, or doomed to be
deleted by the next save. -/
def Live (m : VpnKeysMap) (doomed : ℕ × ℕ → Prop) (p : ℕ × ℕ) (keys : List KeyObject) : Prop :=
  m.content.get? p = some keys ∨ m.dropped.get? p = some keys ∨ doomed p ∧ m.deleted.get? p = some keys

structure Consistent (s : Traced) (doomed : ℕ × ℕ → Prop) : Prop where
  row : ∀ p keys i o, s.map.Live doomed p keys → keys[i]? = some o →
    ⟨o.id, (p, i), o.value, false⟩ ∈ s.map.table.rows
  live : ∀ r ∈ s.map.table.rows, r.flag = false →
    ∃ keys, s.map.Live doomed r.key.1 keys ∧ keys[r.key.2]? = some ⟨r.id, r.value⟩
  disjoint : ∀ p keys, s.map.content.get? p = some keys → s.map.dropped.get? p = none
  doomed_gone : ∀ p, doomed p → s.map.content.get? p = none ∧ s.map.dropped.get? p = none
  flagged : ∀ p i v, HasRow s.map.table true p i v ↔ s.map.dropped.get? p = none ∧ (s.kept p)[i]? = some v
  pending : ∀ p keys, s.map.dropped.get? p = some keys → s.kept p = keys.map KeyObject.value
  deleted_gone : ∀ p keys, ¬ doomed p → s.map.deleted.get? p = some keys → ∀ o ∈ keys,
    ∀ r ∈ s.map.table.rows, r.id ≠ o.id
  deleted_old : ∀ p keys, s.map.deleted.get? p = some keys → ∀ o ∈ keys, o.id ≤ s.map.table.lastId

variable {s : Traced} {doomed : ℕ × ℕ → Prop}

theorem Consistent.congr (h : Consistent s doomed) (hnone : ∀ p, ¬ doomed p) :
    Consistent s fun _ => False := by
  obtain rfl : doomed = fun _ => False := funext fun p => propext (iff_of_false (hnone p) id)
  exact h

theorem Consistent.row_of_id (h : Consistent s doomed) {p : ℕ × ℕ} {keys : List KeyObject}
    (hlive : s.map.Live doomed p keys) {o : KeyObject} (ho : o ∈ keys) {r : FlaggedRow ((ℕ × ℕ) × ℕ) String}
    (hr : r ∈ s.map.table.rows) (hid : r.id = o.id) : r.key.1 = p ∧ r.flag = false := by
  obtain ⟨i, hi⟩ := List.mem_iff_getElem?.mp ho
  have hrow := h.row p keys i o hlive hi
  obtain rfl := s.map.table.eq_of_id hr hrow hid
  exact ⟨rfl, rfl⟩

theorem Consistent.save (h : Consistent s doomed) :
    ∃ m', s.map.save = .ok m' ∧ m'.content = s.map.content ∧ m'.dropped = ∅ ∧ m'.deleted = s.map.deleted ∧
      Consistent ⟨m', s.kept⟩ fun _ => False := by
  -- the keys of dropped pairs have no flagged rows yet
  have hflag : ∃ t, s.map.table.flagAll (ids s.map.dropped) = some t := by
    refine FlaggedTable.exists_flagAll fun r hr hid r' hr' hne hkey => ?_
    obtain ⟨p, keys, hget, o, ho, hoid⟩ := mem_ids.mp hid
    obtain ⟨hp, hrflag⟩ := h.row_of_id (.inr (.inl hget)) ho hr hoid.symm
    by_contra hflag'
    have hhas : HasRow s.map.table true p r'.key.2 r'.value :=
      ⟨r', hr', by rw [← hp, ← hkey], rfl, by simpa using hflag'⟩
    rw [h.flagged, hget] at hhas
    cases hhas.1
  obtain ⟨t, ht⟩ := hflag
  have hsave : s.map.save = .ok { s.map with dropped := ∅, table := t.deleteAll (ids s.map.deleted) } := by
    unfold VpnKeysMap.save
    rw [ht]
  refine ⟨_, hsave, rfl, rfl, rfl, ?_⟩
  have hmem : ∀ r, r ∈ (t.deleteAll (ids s.map.deleted)).rows ↔
      (r ∈ s.map.table.rows ∧ r.id ∉ ids s.map.dropped ∨
        ∃ r₀ ∈ s.map.table.rows, r₀.id ∈ ids s.map.dropped ∧ r = { r₀ with flag := true }) ∧
      r.id ∉ ids s.map.deleted := by
    intro r
    rw [FlaggedTable.mem_deleteAll, FlaggedTable.mem_flagAll ht]
  -- only rows of doomed pairs are deleted
  have hdoomed : ∀ r ∈ s.map.table.rows, r.id ∈ ids s.map.deleted → doomed r.key.1 ∧ r.flag = false := by
    intro r hr hid
    obtain ⟨p, keys, hget, o, ho, hoid⟩ := mem_ids.mp hid
    by_cases hp : doomed p
    · obtain ⟨rfl, hflag⟩ := h.row_of_id (.inr (.inr ⟨hp, hget⟩)) ho hr hoid.symm
      exact ⟨hp, hflag⟩
    · exact absurd hoid.symm (h.deleted_gone p keys hp hget o ho r hr)
  -- only rows of dropped pairs are flagged
  have hdropped : ∀ r ∈ s.map.table.rows, r.id ∈ ids s.map.dropped →
      s.map.dropped.get? r.key.1 ≠ none ∧ r.flag = false := by
    intro r hr hid
    obtain ⟨p, keys, hget, o, ho, hoid⟩ := mem_ids.mp hid
    obtain ⟨rfl, hflag⟩ := h.row_of_id (.inr (.inl hget)) ho hr hoid.symm
    exact ⟨by rw [hget]; nofun, hflag⟩
  refine ⟨?_, ?_, fun _ _ _ => rfl, nofun, ?_, nofun, ?_, ?_⟩
  · rintro p keys i o (hget | hnone | ⟨hfalse, -⟩) hi
    · have hrow := h.row p keys i o (.inl hget) hi
      refine (hmem _).mpr ⟨.inl ⟨hrow, fun hid => (hdropped _ hrow hid).1 (h.disjoint p keys hget)⟩, fun hid => ?_⟩
      have hgone := (h.doomed_gone p (hdoomed _ hrow hid).1).1
      rw [hget] at hgone
      cases hgone
    · cases hnone
    · exact hfalse.elim
  · intro r hr hunflagged
    obtain ⟨hrow | ⟨r₀, -, -, rfl⟩, hdeleted⟩ := (hmem r).mp hr
    · obtain ⟨hrow, hdropped⟩ := hrow
      obtain ⟨keys, hlive, hi⟩ := h.live r hrow hunflagged
      have ho : (⟨r.id, r.value⟩ : KeyObject) ∈ keys := List.mem_of_getElem? hi
      rcases hlive with hget | hget | ⟨-, hget⟩
      · exact ⟨keys, .inl hget, hi⟩
      · exact absurd (mem_ids.mpr ⟨_, keys, hget, _, ho, rfl⟩) hdropped
      · exact absurd (mem_ids.mpr ⟨_, keys, hget, _, ho, rfl⟩) hdeleted
    · cases hunflagged
  · intro p i v
    constructor
    · rintro ⟨r, hr, hkey, hv, hflag⟩
      refine ⟨rfl, ?_⟩
      obtain ⟨⟨hrow, -⟩ | ⟨r₀, hr₀, hid, rfl⟩, -⟩ := (hmem r).mp hr
      · exact ((h.flagged p i v).mp ⟨r, hrow, hkey, hv, hflag⟩).2
      · obtain ⟨p', keys, hget, o, ho, hoid⟩ := mem_ids.mp hid
        obtain ⟨j, hj⟩ := List.mem_iff_getElem?.mp ho
        obtain rfl := s.map.table.eq_of_id hr₀ (h.row p' keys j o (.inr (.inl hget)) hj) hoid.symm
        obtain ⟨rfl, rfl⟩ := Prod.mk.inj hkey
        rw [h.pending p' keys hget, List.getElem?_map, hj]
        exact congrArg some hv
    · rintro ⟨-, hv⟩
      cases hget : s.map.dropped.get? p with
      | none =>
        obtain ⟨r, hr, hkey, hval, hflag⟩ := (h.flagged p i v).mpr ⟨hget, hv⟩
        refine ⟨r, (hmem r).mpr ⟨.inl ⟨hr, fun hid => ?_⟩, fun hid => ?_⟩, hkey, hval, hflag⟩
        · exact absurd ((hdropped r hr hid).2.symm.trans hflag) nofun
        · exact absurd ((hdoomed r hr hid).2.symm.trans hflag) nofun
      | some keys =>
        rw [h.pending p keys hget, List.getElem?_map, Option.map_eq_some_iff] at hv
        obtain ⟨o, hi, rfl⟩ := hv
        have hrow := h.row p keys i o (.inr (.inl hget)) hi
        have hid : o.id ∈ ids s.map.dropped := mem_ids.mpr ⟨p, keys, hget, o, List.mem_of_getElem? hi, rfl⟩
        refine ⟨_, (hmem _).mpr ⟨.inr ⟨_, hrow, hid, rfl⟩, fun hid => ?_⟩, rfl, rfl, rfl⟩
        have hgone := (h.doomed_gone p (hdoomed _ hrow hid).1).2
        rw [hget] at hgone
        cases hgone
  · intro p keys _ hget o ho r hr hid
    exact ((hmem r).mp hr).2 (mem_ids.mpr ⟨p, keys, hget, o, ho, hid.symm⟩)
  · intro p keys hget o ho
    rw [FlaggedTable.lastId_deleteAll, FlaggedTable.lastId_flagAll ht]
    exact h.deleted_old p keys hget o ho

/-! ### Removing pairs -/

/-- A map from which some pairs were removed, before it is saved. -/
def removeAll (m : VpnKeysMap) (removed content : PairedValuesMap (List KeyObject)) (deletes : ℕ × ℕ → Bool) :
    VpnKeysMap :=
  { m.dropPairs removed deletes with content := content }

/-- What `removeAll` is given: pairs of the map, none with flagged rows or deleted before, and the rest. -/
structure Removable (s : Traced) (removed content : PairedValuesMap (List KeyObject)) (deletes : ℕ × ℕ → Bool) :
    Prop where
  mem : ∀ p keys, removed.get? p = some keys → s.map.content.get? p = some keys
  rest : ∀ p, content.get? p = if removed.get? p = none then s.map.content.get? p else none
  kept : ∀ p keys, removed.get? p = some keys → s.kept p = []
  deleted : ∀ p keys, removed.get? p = some keys → deletes p = true → s.map.deleted.get? p = none

/-- The values to keep once pairs are removed. -/
def keptAfter (s : Traced) (removed : PairedValuesMap (List KeyObject)) (deletes : ℕ × ℕ → Bool) (p : ℕ × ℕ) :
    List String :=
  match removed.get? p with
  | some keys => if deletes p then [] else keys.map KeyObject.value
  | none => s.kept p

variable {removed content : PairedValuesMap (List KeyObject)} {deletes : ℕ × ℕ → Bool}

theorem live_removeAll (h : Consistent s fun _ => False) (hrem : Removable s removed content deletes)
    (p : ℕ × ℕ) (keys : List KeyObject) :
    (s.map.removeAll removed content deletes).Live (fun p => removed.get? p ≠ none ∧ deletes p = true) p keys ↔
      s.map.content.get? p = some keys ∨ s.map.dropped.get? p = some keys := by
  obtain ⟨hdropped, hdeleted⟩ := get?_dropPairs s.map removed deletes p
  change content.get? p = some keys ∨ (s.map.dropPairs removed deletes).dropped.get? p = some keys ∨
    _ ∧ (s.map.dropPairs removed deletes).deleted.get? p = some keys ↔ _
  rw [hdropped, hdeleted, hrem.rest p]
  cases hget : removed.get? p with
  | none => simp [hget]
  | some k =>
    have hcontent := hrem.mem p k hget
    have hnone := h.disjoint p k hcontent
    cases hdel : deletes p with
    | true => simp [hget, hcontent, hnone, hdel, hrem.deleted p k hget hdel]
    | false => simp [hget, hcontent, hnone, hdel]

theorem Consistent.removeAll (h : Consistent s fun _ => False) (hrem : Removable s removed content deletes) :
    Consistent ⟨s.map.removeAll removed content deletes, keptAfter s removed deletes⟩
      fun p => removed.get? p ≠ none ∧ deletes p = true := by
  have htable : (s.map.removeAll removed content deletes).table = s.map.table := table_dropPairs _ _ _
  have hlive := live_removeAll h hrem
  have hnotes := get?_dropPairs s.map removed deletes
  have hremoved : ∀ p keys, removed.get? p = some keys → s.map.dropped.get? p = none :=
    fun p keys hget => h.disjoint p keys (hrem.mem p keys hget)
  refine ⟨?_, ?_, ?_, ?_, ?_, ?_, ?_, ?_⟩
  · intro p keys i o hl hi
    rw [htable]
    exact h.row p keys i o (((hlive p keys).mp hl).imp_right .inl) hi
  · intro r hr hflag
    rw [htable] at hr
    obtain ⟨keys, hl, hi⟩ := h.live r hr hflag
    refine ⟨keys, (hlive _ keys).mpr ?_, hi⟩
    rcases hl with hget | hget | ⟨hfalse, -⟩
    · exact .inl hget
    · exact .inr hget
    · exact hfalse.elim
  · intro p keys hget
    change content.get? p = some keys at hget
    rw [hrem.rest p] at hget
    split_ifs at hget with hnone
    change (s.map.dropPairs removed deletes).dropped.get? p = none
    rw [(hnotes p).1, h.disjoint p keys hget, hnone]
    simp
  · rintro p ⟨hne, hdel⟩
    obtain ⟨keys, hget⟩ := Option.ne_none_iff_exists'.mp hne
    refine ⟨(hrem.rest p).trans (if_neg hne), ?_⟩
    change (s.map.dropPairs removed deletes).dropped.get? p = none
    rw [(hnotes p).1, hremoved p keys hget, hdel]
    rfl
  · intro p i v
    change HasRow (s.map.dropPairs removed deletes).table true p i v ↔
      (s.map.dropPairs removed deletes).dropped.get? p = none ∧ (keptAfter s removed deletes p)[i]? = some v
    rw [table_dropPairs, h.flagged, (hnotes p).1, keptAfter]
    cases hget : removed.get? p with
    | none => simp
    | some keys =>
      rw [hrem.kept p keys hget, hremoved p keys hget]
      cases deletes p <;> simp
  · intro p keys hget
    change (s.map.dropPairs removed deletes).dropped.get? p = some keys at hget
    change keptAfter s removed deletes p = _
    rw [(hnotes p).1] at hget
    rw [keptAfter]
    cases hrget : removed.get? p with
    | none =>
      rw [hrget] at hget
      exact h.pending p keys (by simpa using hget)
    | some k =>
      rw [hrget, hremoved p k hrget] at hget
      cases hdel : deletes p with
      | true => simp [hdel] at hget
      | false =>
        rw [hdel] at hget
        obtain rfl : k = keys := by simpa using hget
        rfl
  · intro p keys hnot hget o ho r hr
    rw [htable] at hr
    change (s.map.dropPairs removed deletes).deleted.get? p = some keys at hget
    rw [(hnotes p).2] at hget
    have hold : s.map.deleted.get? p = some keys := by
      by_cases hdel : deletes p = true
      · have hnone : removed.get? p = none := by
          by_contra hne
          exact hnot ⟨hne, hdel⟩
        simpa [hdel, hnone] using hget
      · simpa [hdel] using hget
    exact h.deleted_gone p keys id hold o ho r hr
  · intro p keys hget o ho
    change o.id ≤ (s.map.dropPairs removed deletes).table.lastId
    change (s.map.dropPairs removed deletes).deleted.get? p = some keys at hget
    rw [table_dropPairs]
    rw [(hnotes p).2] at hget
    cases hdel : s.map.deleted.get? p with
    | some old =>
      obtain rfl : old = keys := by simpa [hdel] using hget
      exact h.deleted_old p old hdel o ho
    | none =>
      rw [hdel, Option.none_or] at hget
      split_ifs at hget
      obtain ⟨i, hi⟩ := List.mem_iff_getElem?.mp ho
      exact s.map.table.ids_le _ (h.row p keys i o (.inl (hrem.mem p keys hget)) hi)

theorem Consistent.remove (h : Consistent s fun _ => False) (hrem : Removable s removed content deletes)
    {any : Bool} (hany : any = true ↔ ∃ p, removed.get? p ≠ none ∧ deletes p = true) :
    ∃ m', saveIf (s.map.removeAll removed content deletes) any = .ok m' ∧
      Consistent ⟨m', keptAfter s removed deletes⟩ fun _ => False := by
  have hcons := h.removeAll hrem
  cases any with
  | true =>
    obtain ⟨m', hsave, -, -, -, hcons'⟩ := hcons.save
    exact ⟨m', hsave, hcons'⟩
  | false =>
    refine ⟨_, rfl, hcons.congr fun p hp => ?_⟩
    exact Bool.false_ne_true (hany.mpr ⟨p, hp⟩)

/-! ### Asserting pairs -/

/-- The rows that new keys of a pair add to a table. -/
def AddsKeys (t t' : KeysTable) (pair : ℕ × ℕ) (keys : List KeyObject) : Prop :=
  t.lastId ≤ t'.lastId ∧ (∀ o ∈ keys, t.lastId < o.id) ∧
    ∀ r, r ∈ t'.rows ↔ r ∈ t.rows ∨ ∃ i o, keys[i]? = some o ∧ r = ⟨o.id, (pair, i), o.value, false⟩

variable (source) in
theorem newKeys_eq_ok {pair : ℕ × ℕ} {t : KeysTable} (hfresh : ∀ r ∈ t.rows, r.key.1 = pair → r.flag = true)
    (n : ℕ) : ∃ keys t', (List.range n).foldlM (newKey source pair) ([], t) = .ok (keys, t') ∧
      keys.length = n ∧ AddsKeys t t' pair keys := by
  induction n with
  | zero => exact ⟨[], t, rfl, rfl, Nat.le_refl _, by simp, by simp⟩
  | succ n ih =>
    obtain ⟨keys, t₁, hfold, hlen, hlast, hids, hrows⟩ := ih
    have hnext : ∀ r ∈ t₁.rows, r.key = (pair, n) → r.flag = true := by
      intro r hr hkey
      rcases (hrows r).mp hr with hold | ⟨i, o, hi, rfl⟩
      · exact hfresh r hold (congrArg Prod.fst hkey)
      · obtain rfl : i = n := congrArg Prod.snd hkey
        have hlt := (List.getElem?_eq_some_iff.mp hi).1
        omega
    obtain ⟨t₂, hinsert, hrows₂, hlast₂⟩ :=
      FlaggedTable.insert_eq_some (source (t₁.lastId + 1)) hnext
    refine ⟨keys ++ [⟨t₁.lastId + 1, source (t₁.lastId + 1)⟩], t₂, ?_, by simp [hlen], by omega, ?_, ?_⟩
    · rw [List.range_succ, List.foldlM_append, hfold]
      simp only [Except.ok_bind, List.foldlM_cons, List.foldlM_nil, newKey, hinsert]
      rfl
    · intro o ho
      rcases List.mem_append.mp ho with ho | ho
      · exact hids o ho
      · rw [List.mem_singleton.mp ho]
        exact Nat.lt_succ_of_le hlast
    · intro r
      rw [hrows₂, List.mem_append, hrows, List.mem_singleton, or_assoc]
      refine or_congr_right ?_
      constructor
      · rintro (⟨i, o, hi, rfl⟩ | rfl)
        · exact ⟨i, o, by rw [List.getElem?_append_left (List.getElem?_eq_some_iff.mp hi).1, hi], rfl⟩
        · exact ⟨n, _, by rw [← hlen, List.getElem?_concat_length], rfl⟩
      · rintro ⟨i, o, hi, rfl⟩
        by_cases hlt : i < keys.length
        · rw [List.getElem?_append_left hlt] at hi
          exact .inl ⟨i, o, hi, rfl⟩
        · obtain rfl : i = n := by
            have := (List.getElem?_eq_some_iff.mp hi).1
            simp at this
            omega
          rw [← hlen, List.getElem?_concat_length] at hi
          cases hi
          exact .inr rfl

variable (kind source) in
theorem Consistent.assertPair (h : Consistent s fun _ => False) {a b : ℕ}
    (hpending : s.map.dropped.get? (pairKey a b) = none) :
    ∃ r m', s.map.assertPair kind source a b = .ok (r, m') ∧ Consistent ⟨m', s.kept⟩ fun _ => False := by
  cases hget : s.map.content.get? (pairKey a b) with
  | some keys =>
    refine ⟨(keys, false), s.map, ?_, h⟩
    unfold VpnKeysMap.assertPair
    rw [PairedValuesMap.assertPair_of_get? hget]
    rfl
  | none =>
    have hfresh : ∀ r ∈ s.map.table.rows, r.key.1 = pairKey a b → r.flag = true := by
      intro r hr hkey
      by_contra hflag
      obtain ⟨keys, hlive, -⟩ := h.live r hr (by simpa using hflag)
      rcases hlive with hl | hl | ⟨hfalse, -⟩
      · rw [hkey, hget] at hl
        cases hl
      · rw [hkey, hpending] at hl
        cases hl
      · exact hfalse
    obtain ⟨keys, t', hfold, -, hlast, hids, hrows⟩ := newKeys_eq_ok source hfresh kind.size
    refine ⟨(keys, true), { s.map with content := s.map.content.set (pairKey a b) keys, table := t' }, ?_, ?_⟩
    · unfold VpnKeysMap.assertPair
      rw [PairedValuesMap.assertPair_of_get?_none hget]
      change ((generateVal kind source a b s.map.table >>= _) >>= _) = _
      rw [generateVal, hfold]
      rfl
    have hnew : ∀ r ∈ s.map.table.rows, ∀ o ∈ keys, r.id ≠ o.id := by
      intro r hr o ho heq
      have hle := s.map.table.ids_le r hr
      have hlt := hids o ho
      omega
    refine ⟨?_, ?_, ?_, fun _ hfalse => hfalse.elim, ?_, h.pending, ?_, ?_⟩
    · rintro p keys' i o (hl | hl | ⟨hfalse, -⟩) hi
      · change (s.map.content.set (pairKey a b) keys).get? p = some keys' at hl
        rw [Dict.get?_set] at hl
        split_ifs at hl with hp
        · subst hp
          cases hl
          exact (hrows _).mpr (.inr ⟨i, o, hi, rfl⟩)
        · exact (hrows _).mpr (.inl (h.row p keys' i o (.inl hl) hi))
      · exact (hrows _).mpr (.inl (h.row p keys' i o (.inr (.inl hl)) hi))
      · exact hfalse.elim
    · intro r hr hflag
      rcases (hrows r).mp hr with hold | ⟨i, o, hi, rfl⟩
      · obtain ⟨keys', hl, hi⟩ := h.live r hold hflag
        refine ⟨keys', ?_, hi⟩
        rcases hl with hl | hl | ⟨hfalse, -⟩
        · refine .inl ?_
          change (s.map.content.set (pairKey a b) keys).get? r.key.1 = some keys'
          rw [Dict.get?_set_ne, hl]
          intro hp
          rw [← hp, hget] at hl
          cases hl
        · exact .inr (.inl hl)
        · exact hfalse.elim
      · exact ⟨keys, .inl (Dict.get?_set_self _ _ _), hi⟩
    · intro p keys' hl
      change (s.map.content.set (pairKey a b) keys).get? p = some keys' at hl
      rw [Dict.get?_set] at hl
      split_ifs at hl with hp
      · exact hp ▸ hpending
      · exact h.disjoint p keys' hl
    · intro p i v
      rw [← h.flagged]
      constructor
      · rintro ⟨r, hr, hkey, hv, hflag⟩
        rcases (hrows r).mp hr with hold | ⟨j, o, -, rfl⟩
        · exact ⟨r, hold, hkey, hv, hflag⟩
        · cases hflag
      · rintro ⟨r, hr, hrow⟩
        exact ⟨r, (hrows r).mpr (.inl hr), hrow⟩
    · intro p keys' _ hl o ho r hr heq
      rcases (hrows r).mp hr with hold | ⟨i, o', hi, rfl⟩
      · exact h.deleted_gone p keys' id hl o ho r hold heq
      · have hle := h.deleted_old p keys' hl o ho
        have hlt := hids o' (List.mem_of_getElem? hi)
        change o'.id = o.id at heq
        omega
    · intro p keys' hl o ho
      exact (h.deleted_old p keys' hl o ho).trans hlast

/-! ### Runs -/

/-- A map as it is loaded from its table. -/
structure Loaded (s : Traced) : Prop where
  notes : s.map.dropped = ∅ ∧ s.map.deleted = ∅
  keys : ∀ p i o, (∃ keys, s.map.content.get? p = some keys ∧ keys[i]? = some o) ↔
    ⟨o.id, (p, i), o.value, false⟩ ∈ s.map.table.rows
  kept : ∀ p i v, HasRow s.map.table true p i v ↔ (s.kept p)[i]? = some v

theorem Loaded.consistent (h : Loaded s) : Consistent s fun _ => False := by
  obtain ⟨hdropped, hdeleted⟩ := h.notes
  refine ⟨?_, ?_, fun p _ _ => by rw [hdropped]; rfl, fun _ hfalse => hfalse.elim, ?_, ?_, ?_, ?_⟩
  · rintro p keys i o (hget | hget | ⟨hfalse, -⟩) hi
    · exact (h.keys p i o).mp ⟨keys, hget, hi⟩
    · rw [hdropped] at hget
      cases hget
    · exact hfalse.elim
  · rintro ⟨id, ⟨p, i⟩, value, flag⟩ hr hflag
    obtain rfl : flag = false := hflag
    obtain ⟨keys, hget, hi⟩ := (h.keys p i ⟨id, value⟩).mpr hr
    exact ⟨keys, .inl hget, hi⟩
  · intro p i v
    rw [h.kept, hdropped]
    exact ⟨fun hv => ⟨rfl, hv⟩, And.right⟩
  · intro p keys hget
    rw [hdropped] at hget
    cases hget
  · intro p keys _ hget
    rw [hdeleted] at hget
    cases hget
  · intro p keys hget
    rw [hdeleted] at hget
    cases hget

theorem Consistent.inStep (h : Consistent s fun _ => False) (hdropped : s.map.dropped = ∅) : InStep s := by
  refine ⟨fun p i v => ?_, fun p i v => ?_⟩
  · constructor
    · rintro ⟨⟨id, key, value, flag⟩, hr, rfl, rfl, rfl⟩
      obtain ⟨keys, hget | hget | ⟨hfalse, -⟩, hi⟩ := h.live _ hr rfl
      · rw [values, hget, Option.getD_some, List.getElem?_map, hi]
        rfl
      · rw [hdropped] at hget
        cases hget
      · exact hfalse.elim
    · intro hv
      cases hget : s.map.content.get? p with
      | none =>
        rw [values, hget] at hv
        cases hv
      | some keys =>
        rw [values, hget, Option.getD_some, List.getElem?_map, Option.map_eq_some_iff] at hv
        obtain ⟨o, hi, rfl⟩ := hv
        exact ⟨_, h.row p keys i o (.inl hget) hi, rfl, rfl, rfl⟩
  · rw [h.flagged, hdropped]
    exact ⟨And.right, fun hv => ⟨rfl, hv⟩⟩

theorem keep_eq_keptAfter {a : Act} {removed : PairedValuesMap (List KeyObject)}
    (hremoved : ∀ p, removed.get? p = if a.Removes s.map p then s.map.content.get? p else none)
    (hmem : ∀ p, a.Removes s.map p → p ∈ s.map.content.keys) :
    a.keep s = keptAfter s removed a.deletes := by
  funext p
  rw [Act.keep, keptAfter, hremoved p]
  by_cases hp : a.Removes s.map p
  · obtain ⟨keys, hget⟩ := Dict.mem_keys_iff.mp (hmem p hp)
    rw [if_pos hp, if_pos hp, hget, values, hget]
    rfl
  · rw [if_neg hp, if_neg hp]

theorem any_keys_iff {d : PairedValuesMap (List KeyObject)} {deletes : ℕ × ℕ → Bool} :
    d.keys.any deletes = true ↔ ∃ p, d.get? p ≠ none ∧ deletes p = true := by
  simp only [List.any_eq_true, ne_eq, Dict.get?_eq_none_iff, not_not]

variable (source) in
/-- Every action that meets its condition succeeds and keeps memory and table consistent. -/
theorem Consistent.step (h : Consistent s fun _ => False) {a : Act} (hok : a.Ok kind s) :
    ∃ s', step kind source s a = .ok s' ∧ Consistent s' fun _ => False := by
  cases a with
  | assertPair a b =>
    obtain ⟨r, m', hassert, hcons⟩ := h.assertPair kind source hok
    refine ⟨⟨m', s.kept⟩, ?_, hcons⟩
    simp only [VpnKeysMap.step, stepMap, hassert, Except.ok_bind]
    rfl
  | save =>
    obtain ⟨m', hsave, -, -, -, hcons⟩ := h.save
    refine ⟨⟨m', s.kept⟩, ?_, hcons⟩
    simp only [VpnKeysMap.step, stepMap, hsave, Except.ok_bind]
    rfl
  | dropKeys delete deleteMap =>
    have hmem : ∀ {p keys}, s.map.content.get? p = some keys → p ∈ s.map.content.keys :=
      fun hget => Dict.mem_keys_iff.mpr ⟨_, hget⟩
    have hrem : Removable s s.map.content ∅ (deletesPair delete deleteMap) := by
      refine ⟨fun _ _ hget => hget, fun p => ?_, fun p keys hget => (hok p (hmem hget)).1,
        fun p keys hget => (hok p (hmem hget)).2⟩
      split_ifs with hnone
      · exact hnone.symm
      · rfl
    obtain ⟨m', hsave, hcons⟩ := h.remove hrem any_keys_iff
    have hkeep : (Act.dropKeys delete deleteMap).keep s =
        keptAfter s s.map.content (deletesPair delete deleteMap) := by
      refine keep_eq_keptAfter (fun p => ?_) fun p hp => hp
      by_cases hp : (Act.dropKeys delete deleteMap).Removes s.map p
      · rw [if_pos hp]
      · rw [if_neg hp]
        exact Dict.get?_eq_none_iff.mpr hp
    refine ⟨⟨m', keptAfter s s.map.content (deletesPair delete deleteMap)⟩, ?_, hcons⟩
    simp only [VpnKeysMap.step, stepMap, dropKeys]
    change (((saveIf (s.map.removeAll s.map.content ∅ _) _ >>= _) >>= _) >>= _) = _
    rw [hsave, hkeep]
    rfl
  | purgePeer peer delete deleteMap =>
    have hpurged : ∀ p, (s.map.content.purged peer).get? p =
        if peer = p.1 ∨ peer = p.2 then s.map.content.get? p else none := by
      intro p
      rw [purged, Dict.get?_filterKeys]
      simp only [decide_eq_true_eq]
    have hsel : ∀ {p keys}, (s.map.content.purged peer).get? p = some keys →
        (peer = p.1 ∨ peer = p.2) ∧ s.map.content.get? p = some keys := by
      intro p keys hget
      rw [hpurged] at hget
      split_ifs at hget with hp
      exact ⟨hp, hget⟩
    have hcond : ∀ {p keys}, (s.map.content.purged peer).get? p = some keys → kind = .preshared ∧
        s.kept p = [] ∧ (deletesPair delete deleteMap p = true → s.map.deleted.get? p = none) :=
      fun hget => hok _ (Dict.mem_keys_iff.mpr ⟨_, (hsel hget).2⟩) (hsel hget).1
    have hrem : Removable s (s.map.content.purged peer) (s.map.content.purgePeer peer)
        (deletesPair delete deleteMap) := by
      refine ⟨fun p keys hget => (hsel hget).2, fun p => ?_, fun p keys hget => (hcond hget).2.1,
        fun p keys hget => (hcond hget).2.2⟩
      rw [hpurged, PairedValuesMap.purgePeer, Dict.get?_filterKeys]
      by_cases hp : peer = p.1 ∨ peer = p.2
      · cases hget : s.map.content.get? p <;> simp [hp]
      · simp [hp]
    obtain ⟨m', hsave, hcons⟩ := h.remove hrem any_keys_iff
    have hkeep : (Act.purgePeer peer delete deleteMap).keep s =
        keptAfter s (s.map.content.purged peer) (deletesPair delete deleteMap) := by
      refine keep_eq_keptAfter (fun p => ?_) fun p hp => hp.1
      rw [hpurged]
      by_cases hmem : p ∈ s.map.content.keys
      · exact if_congr (and_iff_right hmem).symm rfl rfl
      · rw [if_neg (show ¬ (Act.purgePeer peer delete deleteMap).Removes s.map p from fun hp => hmem hp.1),
          Dict.get?_eq_none_iff.mpr hmem, ite_self]
    have hhash : ¬ (kind = .paired ∧ (s.map.content.purged peer).keys ≠ []) := by
      rintro ⟨rfl, hne⟩
      obtain ⟨p, hp⟩ := List.exists_mem_of_ne_nil _ hne
      obtain ⟨keys, hget⟩ := Dict.mem_keys_iff.mp hp
      cases (hcond hget).1
    refine ⟨⟨m', keptAfter s (s.map.content.purged peer) (deletesPair delete deleteMap)⟩, ?_, hcons⟩
    simp only [VpnKeysMap.step, stepMap, VpnKeysMap.purgePeer, if_neg hhash]
    change (((saveIf (s.map.removeAll (s.map.content.purged peer) _ _) _ >>= _) >>= _) >>= _) = _
    rw [hsave, hkeep]
    rfl

/-- In every run whose actions meet their conditions, no action fails, and after each save the keys in
memory are the rows without flag, and the flagged rows the keys that were dropped without deletion. -/
theorem keysMap_in_step {s₀ : Traced} (h₀ : Loaded s₀)
    (hrun : Run.Reaches (step kind source) (fun s a => a.Ok kind s) s₀ s) :
    (∀ a : Act, a.Ok kind s → ∃ s', step kind source s a = .ok s') ∧
      ∀ s', step kind source s .save = .ok s' → InStep s' := by
  have hcons : Consistent s fun _ => False := by
    refine hrun.invariant (I := fun s => Consistent s fun _ => False) h₀.consistent fun s a s' h hok hstep => ?_
    obtain ⟨s'', hstep', hcons⟩ := h.step source hok
    rw [hstep, Except.ok.injEq] at hstep'
    exact hstep' ▸ hcons
  refine ⟨fun a hok => ?_, fun s' hstep => ?_⟩
  · obtain ⟨s', hstep, -⟩ := hcons.step source hok
    exact ⟨s', hstep⟩
  · obtain ⟨m', hsave, -, hdropped, -, hcons'⟩ := hcons.save
    simp only [VpnKeysMap.step, stepMap, hsave, Except.ok_bind, Except.ok.injEq] at hstep
    subst hstep
    exact hcons'.inStep hdropped

/-! ### Examples -/

/-- A map without keys. -/
def fresh : Traced := ⟨⟨∅, ∅, ∅, .empty⟩, fun _ => []⟩

theorem loaded_fresh : Loaded fresh :=
  ⟨⟨rfl, rfl⟩, fun _ _ _ => ⟨nofun, nofun⟩, fun _ _ _ => ⟨nofun, nofun⟩⟩

def deleteAllKeys : Act := .dropKeys true fun _ => false

/-- A pair that is asserted, dropped, asserted again and saved. -/
theorem keysMap_in_step_example :
    ∃ s s', Run.Reaches (step .paired Nat.repr) (fun s a => a.Ok .paired s) fresh s ∧
      step .paired Nat.repr s .save = .ok s' ∧ InStep s' := by
  have hrun : Run.Reaches (step .paired Nat.repr) (fun s a => a.Ok .paired s) fresh _ :=
    .step (.assertPair 0 1) (.step .save (.step (.dropKeys false fun _ => false)
      (.step (.assertPair 0 1) .refl rfl rfl) (fun _ _ => ⟨rfl, nofun⟩) rfl) trivial rfl) rfl rfl
  obtain ⟨htotal, hinStep⟩ := keysMap_in_step loaded_fresh hrun
  obtain ⟨s', hsave⟩ := htotal .save trivial
  exact ⟨_, s', hrun, hsave, hinStep s' hsave⟩

/-- A pair that is deleted twice by one map keeps its row. -/
theorem keysMap_out_of_step : ¬ ∀ s s', Run.Reaches (step .preshared Nat.repr) (fun _ _ => True) fresh s →
    step .preshared Nat.repr s .save = .ok s' → InStep s' := by
  intro h
  have hrun : Run.Reaches (step .preshared Nat.repr) (fun _ _ => True) fresh _ :=
    .step deleteAllKeys (.step (.assertPair 0 1) (.step deleteAllKeys (.step (.assertPair 0 1) .refl trivial rfl)
      trivial rfl) trivial rfl) trivial rfl
  have hrow := ((h _ _ hrun rfl).active (0, 1) 0 "2").mp ⟨_, .head _, rfl, rfl, rfl⟩
  cases hrow

end VpnKeysMap

end Uno
