import Uno.Registry.Clashes
import Uno.Lib.Fold

/-!
# The cells of a UVN

`Uvn` is the content of the tables of cells and particles, with the checks of `validate_cell` and
`_validate`. `validateCell` finds a clash exactly when a LAN of the cell overlaps one of another
active cell (`validateCell_eq_ok_iff`).
-/

namespace Uno

structure CellRow where
  id : ℕ
  owner : ℕ
  address : Option String
  allowedLans : List IPv4Network
  excluded : Bool
  deriving DecidableEq

structure ParticleRow where
  id : ℕ
  owner : ℕ
  excluded : Bool
  deriving DecidableEq

structure Uvn where
  owner : ℕ
  address : Option String
  enableRootVpn : Bool
  cellRows : List CellRow
  particleRows : List ParticleRow
  /-- The entry of `next_id` for cells: the last id given out. -/
  nextCellId : ℕ
  nextParticleId : ℕ
  cellIds_nodup : (cellRows.map CellRow.id).Nodup
  cellIds_le : ∀ c ∈ cellRows, c.id ≤ nextCellId
  particleIds_nodup : (particleRows.map ParticleRow.id).Nodup
  particleIds_le : ∀ p ∈ particleRows, p.id ≤ nextParticleId

namespace Uvn

theorem nodup_no_particleIds : (([] : List ParticleRow).map ParticleRow.id).Nodup := .nil

theorem nodup_no_cellIds : (([] : List CellRow).map CellRow.id).Nodup := .nil

theorem no_particleIds_le : ∀ p ∈ ([] : List ParticleRow), p.id ≤ 0 := List.forall_mem_nil _

theorem no_cellIds_le : ∀ c ∈ ([] : List CellRow), c.id ≤ 0 := List.forall_mem_nil _

theorem nodup_one_particleId : ([⟨1, 1, false⟩].map ParticleRow.id).Nodup := by decide

theorem one_particleId_le : ∀ p ∈ ([⟨1, 1, false⟩] : List ParticleRow), p.id ≤ 1 := by decide

theorem nodup_one_cellId : ([⟨1, 1, none, [], false⟩].map CellRow.id).Nodup := by decide

theorem one_cellId_le : ∀ c ∈ ([⟨1, 1, none, [], false⟩] : List CellRow), c.id ≤ 1 := by decide

end Uvn

namespace CellRow

def isPrivate (c : CellRow) : Bool := c.address = none

/-- Some LANs of the two cells overlap. -/
def Clashes (c d : CellRow) : Prop :=
  ∃ n ∈ c.allowedLans, ∃ m ∈ d.allowedLans, n.overlaps m

theorem Clashes.symm {c d : CellRow} : c.Clashes d → d.Clashes c :=
  fun ⟨n, hn, m, hm, hover⟩ => ⟨m, hm, n, hn, IPv4Network.overlaps_comm n m ▸ hover⟩

end CellRow

namespace Uvn

/-! ### Validation -/

/-- The active cells. -/
def cells (u : Uvn) : List CellRow := u.cellRows.filter fun c => ¬ c.excluded

def excludedCells (u : Uvn) : List CellRow := u.cellRows.filter fun c => c.excluded

def allCells (u : Uvn) : List CellRow := u.cells ++ u.excludedCells

def excludedParticles (u : Uvn) : List ParticleRow := u.particleRows.filter fun p => p.excluded

def particles (u : Uvn) : List ParticleRow := u.particleRows.filter fun p => ¬ p.excluded

def allParticles (u : Uvn) : List ParticleRow := u.particles ++ u.excludedParticles

def validateCell (u : Uvn) (c : CellRow) : Result Unit := do
  if c.allowedLans ≠ [] then
    let clashes := detectNetworkClashes (u.cells.filter fun d => d.id ≠ c.id) CellRow.allowedLans c.allowedLans
    if clashes ≠ [] then .error .clashingNetworks
  else if c.isPrivate then
    .error (.value "private cells must have at least one network attached to them")
  if c.isPrivate ∧ ¬ truthy u.address ∧ u.enableRootVpn then
    .error (.value "private cells require a registry address to support reconfiguration. Either make the cell public, assign a public address to the UVN, or disable the root VPN.")

/-- `_validate`. -/
def validate (u : Uvn) : Result Unit := forM u.allCells u.validateCell

variable {u : Uvn} {c d : CellRow}

theorem mem_cells : c ∈ u.cells ↔ c ∈ u.cellRows ∧ c.excluded = false := by
  simp [cells]

theorem mem_allCells : c ∈ u.allCells ↔ c ∈ u.cellRows := by
  simp only [allCells, cells, excludedCells, List.mem_append, List.mem_filter]
  cases c.excluded <;> simp

theorem mem_allParticles {p : ParticleRow} : p ∈ u.allParticles ↔ p ∈ u.particleRows := by
  simp only [allParticles, particles, excludedParticles, List.mem_append, List.mem_filter]
  cases p.excluded <;> simp

theorem allCells_perm (u : Uvn) : u.allCells.Perm u.cellRows := by
  unfold allCells cells excludedCells
  have hsplit := List.filter_append_perm (fun c : CellRow => ¬ c.excluded) u.cellRows
  refine .trans (.append_left _ (.of_eq (List.filter_congr fun c _ => ?_))) hsplit
  cases c.excluded <;> rfl

/-- The address checks of `validate_cell`. -/
def PrivateOk (u : Uvn) (c : CellRow) : Prop :=
  c.isPrivate → c.allowedLans ≠ [] ∧ (truthy u.address ∨ ¬ u.enableRootVpn)

theorem validateCell_eq_ok_iff :
    u.validateCell c = .ok () ↔ (∀ d ∈ u.cells, d.id ≠ c.id → ¬ c.Clashes d) ∧ u.PrivateOk c := by
  unfold validateCell PrivateOk
  by_cases hlans : c.allowedLans = []
  · have hnone : ∀ d, ¬ c.Clashes d := by
      rintro d ⟨n, hn, -⟩
      rw [hlans] at hn
      cases hn
    by_cases hprivate : c.isPrivate
    · simp [hlans, hprivate]
    · simp [hlans, hprivate, hnone, Except.pure_eq_ok]
  · have hclashes := detectNetworkClashes_eq_nil_iff (u.cells.filter fun d => d.id ≠ c.id)
      CellRow.allowedLans hlans
    have hiff : detectNetworkClashes (u.cells.filter fun d => d.id ≠ c.id) CellRow.allowedLans
        c.allowedLans = [] ↔ ∀ d ∈ u.cells, d.id ≠ c.id → ¬ c.Clashes d := by
      rw [hclashes]
      constructor
      · rintro h d hd hne ⟨n, hn, m, hm, hover⟩
        exact h d (List.mem_filter.mpr ⟨hd, decide_eq_true hne⟩) m hm n hn hover
      · intro h d hd m hm n hn hover
        obtain ⟨hd, hne⟩ := List.mem_filter.mp hd
        exact h d hd (of_decide_eq_true hne) ⟨n, hn, m, hm, hover⟩
    rw [← hiff, if_pos hlans]
    generalize detectNetworkClashes (u.cells.filter fun d => d.id ≠ c.id) CellRow.allowedLans
      c.allowedLans = clashes
    by_cases hfound : clashes = []
    · subst hfound
      simp only [hlans, ne_eq, not_true_eq_false, if_false, not_false_eq_true, true_and]
      by_cases haddress : truthy u.address <;> simp [haddress, Except.pure_eq_ok]
    · simp [hfound]

theorem validate_eq_ok_iff :
    u.validate = .ok () ↔ ∀ c ∈ u.cellRows,
      (∀ d ∈ u.cells, d.id ≠ c.id → ¬ c.Clashes d) ∧ u.PrivateOk c := by
  unfold validate
  rw [Fold.forM_eq_ok_iff]
  constructor
  · intro h c hc
    exact validateCell_eq_ok_iff.mp (h c (mem_allCells.mpr hc))
  · intro h c hc
    exact validateCell_eq_ok_iff.mpr (h c (mem_allCells.mp hc))

end Uvn

end Uno
