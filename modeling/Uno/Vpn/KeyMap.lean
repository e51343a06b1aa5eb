import Uno.Core.Paired
import Uno.Lib.FlaggedTable
import Uno.Lib.Fold

/-!
# Key maps and their rows

`VpnKeysMap` holds the keys of pairs of peers in memory and in a table. A pair that is dropped keeps its
rows, flagged; a pair that is deleted loses them. The map notes what it dropped and deleted, and `save`
writes the notes to the table: it forgets the dropped pairs then, but never the deleted ones.
-/

namespace Uno

open PairedValuesMap

/-- `PresharedKeysMap` has one key for each pair, `PairedVpnKeysMap` one for each end. -/
inductive KeysMapKind where
  | preshared
  | paired
  deriving DecidableEq

def KeysMapKind.size : KeysMapKind → ℕ
  | .preshared => 1
  | .paired => 2

/-- A key in memory, with the id of its row. -/
structure KeyObject where
  id : ℕ
  value : String
  deriving DecidableEq

/-- The rows with the prefix of a map: the key of a row is the pair and the place in it. -/
abbrev KeysTable := FlaggedTable ((ℕ × ℕ) × ℕ) String

structure VpnKeysMap where
  content : PairedValuesMap (List KeyObject)
  dropped : PairedValuesMap (List KeyObject)
  deleted : PairedValuesMap (List KeyObject)
  table : KeysTable

namespace VpnKeysMap

/-! ### The operations -/

section operations
variable (kind : KeysMapKind) (source : ℕ → String)

/-- `new_child`: a new key, inserted at once. Keys that are generated do not repeat. -/
def newKey (pair : ℕ × ℕ) (acc : List KeyObject × KeysTable) (i : ℕ) : Result (List KeyObject × KeysTable) :=
  match acc.2.insert (pair, i) (source (acc.2.lastId + 1)) with
  | some table => .ok (acc.1 ++ [⟨acc.2.lastId + 1, source (acc.2.lastId + 1)⟩], table)
  | none => .error .integrity

/-- The new keys of a pair. -/
def generateVal (peerA peerB : ℕ) : StateT KeysTable Result (List KeyObject) := fun table =>
  (List.range kind.size).foldlM (newKey source (pairKey peerA peerB)) ([], table)

def assertPair (m : VpnKeysMap) (peerA peerB : ℕ) : Result ((List KeyObject × Bool) × VpnKeysMap) := do
  let ((asserted, content), table) ←
    PairedValuesMap.assertPair (generateVal kind source) m.content peerA peerB m.table
  .ok (asserted, { m with content := content, table := table })

def dropPair (m : VpnKeysMap) (pair : ℕ × ℕ) (keys : List KeyObject) (delete : Bool) : VpnKeysMap :=
  if delete = true ∧ m.deleted.get? pair = none then { m with deleted := m.deleted.set pair keys }
  else if delete = false ∧ m.dropped.get? pair = none then { m with dropped := m.dropped.set pair keys }
  else m

/-- `delete or delete_map.get(pair[0], False) or delete_map.get(pair[1], False)`. -/
def deletesPair (delete : Bool) (deleteMap : ℕ → Bool) (pair : ℕ × ℕ) : Bool :=
  delete || deleteMap pair.1 || deleteMap pair.2

def dropPairs (m : VpnKeysMap) (pairs : PairedValuesMap (List KeyObject)) (deletes : ℕ × ℕ → Bool) : VpnKeysMap :=
  pairs.entries.foldl (fun m e => m.dropPair e.1 e.2 (deletes e.1)) m

/-- The ids of all keys of a map. -/
def ids (pairs : PairedValuesMap (List KeyObject)) : List ℕ := pairs.values.flatMap fun keys => keys.map KeyObject.id

def save (m : VpnKeysMap) : Result VpnKeysMap :=
  match m.table.flagAll (ids m.dropped) with
  | some table => .ok { m with dropped := ∅, table := table.deleteAll (ids m.deleted) }
  | none => .error .integrity

/-- Pairs that were deleted are deleted from the table at once. -/
def saveIf (m : VpnKeysMap) (deleted : Bool) : Result VpnKeysMap := if deleted then m.save else .ok m

def dropKeys (m : VpnKeysMap) (delete : Bool) (deleteMap : ℕ → Bool) : Result (ℕ × VpnKeysMap) := do
  let deletes := deletesPair delete deleteMap
  let m' ← saveIf { m.dropPairs m.content deletes with content := ∅ } (m.content.keys.any deletes)
  .ok (m.content.size, m')

/-- The keys of two ends are a list, which is not hashable. -/
def purgePeer (m : VpnKeysMap) (peer : ℕ) (delete : Bool) (deleteMap : ℕ → Bool) :
    Result (PairedValuesMap (List KeyObject) × VpnKeysMap) := do
  let deletes := deletesPair delete deleteMap
  let purged := m.content.purged peer
  if kind = .paired ∧ purged.keys ≠ [] then .error (.type "unhashable type: 'list'")
  let m' ← saveIf { m.dropPairs purged deletes with content := m.content.purgePeer peer } (purged.keys.any deletes)
  .ok (purged, m')

end operations

/-! ### Runs -/

inductive Act where
  | assertPair (peerA peerB : ℕ)
  | dropKeys (delete : Bool) (deleteMap : ℕ → Bool)
  | purgePeer (peer : ℕ) (delete : Bool) (deleteMap : ℕ → Bool)
  | save

/-- The values of a pair in memory. -/
def values (m : VpnKeysMap) (pair : ℕ × ℕ) : List String :=
  ((m.content.get? pair).getD []).map KeyObject.value

/-- A map, and what its flagged rows should be: for each pair the last values it was dropped with, unless
it was deleted since. -/
structure Traced where
  map : VpnKeysMap
  kept : ℕ × ℕ → List String

/-- The pairs an action removes. -/
def Act.Removes (m : VpnKeysMap) (pair : ℕ × ℕ) : Act → Prop
  | .dropKeys _ _ => pair ∈ m.content.keys
  | .purgePeer peer _ _ => pair ∈ m.content.keys ∧ (peer = pair.1 ∨ peer = pair.2)
  | _ => False

instance (m : VpnKeysMap) (pair : ℕ × ℕ) : (a : Act) → Decidable (a.Removes m pair)
  | .dropKeys _ _ => inferInstanceAs (Decidable (pair ∈ m.content.keys))
  | .purgePeer _ _ _ => inferInstanceAs (Decidable (_ ∧ _))
  | .assertPair _ _ => inferInstanceAs (Decidable False)
  | .save => inferInstanceAs (Decidable False)

/-- Whether an action deletes the pairs it removes. -/
def Act.deletes : Act → ℕ × ℕ → Bool
  | .dropKeys delete deleteMap => deletesPair delete deleteMap
  | .purgePeer _ delete deleteMap => deletesPair delete deleteMap
  | _ => fun _ => false

def Act.keep (s : Traced) (a : Act) (pair : ℕ × ℕ) : List String :=
  if a.Removes s.map pair then (if a.deletes pair then [] else s.map.values pair) else s.kept pair

def stepMap (kind : KeysMapKind) (source : ℕ → String) (m : VpnKeysMap) : Act → Result VpnKeysMap
  | .assertPair peerA peerB => do .ok (← m.assertPair kind source peerA peerB).2
  | .dropKeys delete deleteMap => do .ok (← m.dropKeys delete deleteMap).2
  | .purgePeer peer delete deleteMap => do .ok (← m.purgePeer kind peer delete deleteMap).2
  | .save => m.save

def step (kind : KeysMapKind) (source : ℕ → String) (s : Traced) (a : Act) : Result Traced := do
  .ok ⟨← stepMap kind source s.map a, a.keep s⟩

/-- A pair that is asserted has no drop that was not saved; a pair that is removed has no flagged rows, and
if it is deleted, this map did not delete it before. Only preshared keys are purged. -/
def Act.Ok (kind : KeysMapKind) (s : Traced) : Act → Prop
  | .assertPair peerA peerB => s.map.dropped.get? (pairKey peerA peerB) = none
  | .dropKeys delete deleteMap => ∀ pair ∈ s.map.content.keys, s.kept pair = [] ∧
      (deletesPair delete deleteMap pair = true → s.map.deleted.get? pair = none)
  | .purgePeer peer delete deleteMap => ∀ pair ∈ s.map.content.keys, (peer = pair.1 ∨ peer = pair.2) →
      kind = .preshared ∧ s.kept pair = [] ∧
        (deletesPair delete deleteMap pair = true → s.map.deleted.get? pair = none)
  | .save => True

/-- The table has a row for the key at a place of a pair. -/
def HasRow (t : KeysTable) (flag : Bool) (pair : ℕ × ℕ) (i : ℕ) (value : String) : Prop :=
  ∃ r ∈ t.rows, r.key = (pair, i) ∧ r.value = value ∧ r.flag = flag

/-- Memory and table agree: the rows without flag are the keys in memory, the flagged ones those that were
dropped last. -/
structure InStep (s : Traced) : Prop where
  active : ∀ pair i v, HasRow s.map.table false pair i v ↔ (s.map.values pair)[i]? = some v
  dropped : ∀ pair i v, HasRow s.map.table true pair i v ↔ (s.kept pair)[i]? = some v

end VpnKeysMap

end Uno
