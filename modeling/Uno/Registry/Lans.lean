import Uno.Registry.Cells

/-!
# Disjoint LANs

Which steps keep the UVN valid (`step_valid_iff`), and that a run of such steps keeps the LANs of the
active cells disjoint (`lans_disjoint`).
-/

namespace Uno

namespace Uvn

variable {u : Uvn}

/-- The whole-UVN validation accepts. -/
def Valid (u : Uvn) : Prop := u.validate = .ok ()

/-- The LANs of different active cells do not overlap. -/
def LansDisjoint (u : Uvn) : Prop :=
  ∀ c ∈ u.cells, ∀ d ∈ u.cells, d.id ≠ c.id → ∀ n ∈ c.allowedLans, ∀ m ∈ d.allowedLans, ¬ n.overlaps m

theorem Valid.lansDisjoint (h : u.Valid) : u.LansDisjoint :=
  fun c hc d hd hne n hn m hm hover =>
    (validate_eq_ok_iff.mp h c (mem_cells.mp hc).1).1 d hd hne ⟨n, hn, m, hm, hover⟩

theorem mem_excludedCells {c : CellRow} : c ∈ u.excludedCells ↔ c ∈ u.cellRows ∧ c.excluded = true := by
  simp [excludedCells]

section insertCell
variable {owner : Option ℕ} {address : Option String} {lans : List IPv4Network}

theorem mem_insertCell {c : CellRow} :
    c ∈ (u.insertCell owner address lans).cellRows ↔ c ∈ u.cellRows ∨ c = u.newCell owner address lans := by
  rw [insertCell, List.mem_append, List.mem_singleton]

theorem mem_cells_insertCell {c : CellRow} :
    c ∈ (u.insertCell owner address lans).cells ↔ c ∈ u.cells ∨ c = u.newCell owner address lans := by
  rw [mem_cells, mem_cells, mem_insertCell, or_and_right]
  refine or_congr_right ⟨And.left, ?_⟩
  rintro rfl
  exact ⟨rfl, rfl⟩

theorem insertCell_valid_iff (h : u.Valid)
    (hnew : (u.insertCell owner address lans).validateCell (u.newCell owner address lans) = .ok ()) :
    (u.insertCell owner address lans).Valid ↔
      ∀ d ∈ u.excludedCells, ¬ (u.newCell owner address lans).Clashes d := by
  obtain ⟨hactive, hprivate⟩ := validateCell_eq_ok_iff.mp hnew
  have hold := validate_eq_ok_iff.mp h
  constructor
  · intro hvalid d hd hclash
    have hrow := (mem_excludedCells.mp hd).1
    exact (validate_eq_ok_iff.mp hvalid d (mem_insertCell.mpr (.inl hrow))).1 _
      (mem_cells_insertCell.mpr (.inr rfl)) (id_lt_newCell hrow owner address lans).ne' hclash.symm
  · intro hexcluded
    refine validate_eq_ok_iff.mpr fun c hc => ?_
    rcases mem_insertCell.mp hc with hc | rfl
    · refine ⟨fun d hd hne hclash => ?_, (hold c hc).2⟩
      rcases mem_cells_insertCell.mp hd with hd | rfl
      · exact (hold c hc).1 d hd hne hclash
      · by_cases hex : c.excluded = true
        · exact hexcluded c (mem_excludedCells.mpr ⟨hc, hex⟩) hclash.symm
        · have hcell : c ∈ u.cells := mem_cells.mpr ⟨hc, Bool.not_eq_true _ ▸ hex⟩
          exact hactive c (mem_cells_insertCell.mpr (.inl hcell)) hne.symm hclash.symm
    · exact ⟨hactive, hprivate⟩

end insertCell

theorem eraseCell_valid (h : u.Valid) (id : ℕ) : (u.eraseCell id).Valid := by
  refine validate_eq_ok_iff.mpr fun c hc => ?_
  obtain ⟨hclash, hprivate⟩ := validate_eq_ok_iff.mp h c (List.mem_of_mem_filter hc)
  refine ⟨fun d hd => hclash d ?_, hprivate⟩
  obtain ⟨hd, hex⟩ := mem_cells.mp hd
  exact mem_cells.mpr ⟨List.mem_of_mem_filter hd, hex⟩

end Uvn

namespace Registry

open Uvn

variable {r r' : Registry}

theorem exclude_valid_iff (h : r.uvn.Valid) (collected : List Target) (banned : Bool) :
    (r.exclude collected banned).uvn.Valid ↔
      (banned = false → ∀ c ∈ r.uvn.excludedCells, .cell c.id ∈ collected →
        ∀ d ∈ r.uvn.excludedCells, d.id ≠ c.id → ¬ c.Clashes d) := by
  have hold := validate_eq_ok_iff.mp h
  let f : CellRow → CellRow := fun c =>
    if .cell c.id ∈ collected then { c with excluded := banned } else c
  have hid : ∀ c, (f c).id = c.id := fun c => by dsimp only [f]; split_ifs <;> rfl
  have hlans : ∀ c, (f c).allowedLans = c.allowedLans := fun c => by dsimp only [f]; split_ifs <;> rfl
  have haddress : ∀ c, (f c).address = c.address := fun c => by dsimp only [f]; split_ifs <;> rfl
  have hclashes : ∀ c d, (f c).Clashes (f d) ↔ c.Clashes d := by
    intro c d
    rw [CellRow.Clashes, hlans, hlans]
    rfl
  have hrows : (r.exclude collected banned).uvn.cellRows = r.uvn.cellRows.map f := rfl
  have hprivate : ∀ c, (r.exclude collected banned).uvn.PrivateOk (f c) ↔ r.uvn.PrivateOk c := by
    intro c
    unfold PrivateOk CellRow.isPrivate
    rw [hlans, haddress]
    rfl
  have hcells : ∀ d ∈ r.uvn.cellRows, f d ∈ (r.exclude collected banned).uvn.cells ↔
      (f d).excluded = false := by
    intro d hd
    rw [mem_cells, hrows]
    exact and_iff_right (List.mem_map_of_mem hd)
  constructor
  · rintro hvalid rfl c hc hcollected d hd hne hclash
    have hc := (mem_excludedCells.mp hc).1
    have hd := (mem_excludedCells.mp hd).1
    have hactive : f c ∈ (r.exclude collected false).uvn.cells := by
      rw [hcells c hc]
      dsimp only [f]
      rw [if_pos hcollected]
    refine (validate_eq_ok_iff.mp hvalid (f d) (hrows ▸ List.mem_map_of_mem hd)).1 _ hactive ?_ ?_
    · rw [hid, hid]
      exact hne.symm
    · exact (hclashes d c).mpr hclash.symm
  · intro hunban
    refine validate_eq_ok_iff.mpr fun c' hc' => ?_
    rw [hrows] at hc'
    obtain ⟨c, hc, rfl⟩ := List.mem_map.mp hc'
    refine ⟨fun d' hd' hne => ?_, (hprivate c).mpr (hold c hc).2⟩
    obtain ⟨d, hd, rfl⟩ := List.mem_map.mp (hrows ▸ (mem_cells.mp hd').1)
    rw [hid, hid] at hne
    rw [hclashes]
    by_cases hex : d.excluded = true
    · -- `d` is unbanned by this step
      have hactive := (hcells d hd).mp hd'
      dsimp only [f] at hactive
      by_cases hcollected : .cell d.id ∈ collected
      · rw [if_pos hcollected] at hactive
        by_cases hexc : c.excluded = true
        · exact fun hclash => hunban hactive d (mem_excludedCells.mpr ⟨hd, hex⟩) hcollected c
            (mem_excludedCells.mpr ⟨hc, hexc⟩) hne.symm hclash.symm
        · exact fun hclash => (hold d hd).1 c (mem_cells.mpr ⟨hc, Bool.not_eq_true _ ▸ hexc⟩) hne.symm
            hclash.symm
      · rw [if_neg hcollected, hex] at hactive
        cases hactive
    · exact (hold c hc).1 d (mem_cells.mpr ⟨hd, Bool.not_eq_true _ ▸ hex⟩) hne

theorem save_eq_ok (h : r.save = .ok r') : r'.uvn = r.uvn ∧ (r.dirty = true → r.uvn.Valid) := by
  unfold save at h
  by_cases hdirty : r.dirty = true
  · rw [if_pos hdirty, Except.bind_eq_ok_iff] at h
    obtain ⟨_, hvalid, h⟩ := h
    cases h
    exact ⟨rfl, fun _ => hvalid⟩
  · rw [if_neg hdirty] at h
    cases h
    exact ⟨rfl, fun h => absurd h hdirty⟩

theorem updateCell_save_valid {id : ℕ} {lans : List IPv4Network} {r₁ : Registry} (h : r.uvn.Valid)
    (hupdate : r.updateCell id lans = .ok r₁) (hsave : r₁.save = .ok r') : r'.uvn.Valid := by
  obtain ⟨huvn, hvalid⟩ := save_eq_ok hsave
  rw [huvn]
  unfold updateCell at hupdate
  split at hupdate
  · cases hupdate
  · split_ifs at hupdate
    · cases hupdate
      exact h
    · cases hupdate
      exact hvalid rfl

theorem deleteCell_valid {id : ℕ} (h : r.uvn.Valid) (hdelete : r.deleteCell id = .ok r') : r'.uvn.Valid := by
  unfold deleteCell at hdelete
  split at hdelete
  · cases hdelete
  · cases hdelete
    exact eraseCell_valid h id

/-- From a valid state a step leads to a valid state exactly when it meets the condition. -/
theorem step_valid_iff {op : Op} (h : r.uvn.Valid) (hstep : r.step op = .ok r') :
    r'.uvn.Valid ↔ op.Ok r := by
  cases op with
  | addCell owner address lans =>
    obtain ⟨_, hcheck, hr⟩ := Except.bind_eq_ok_iff.mp hstep
    cases hr
    exact insertCell_valid_iff h hcheck
  | updateCell id lans =>
    obtain ⟨r₁, hupdate, hsave⟩ := Except.bind_eq_ok_iff.mp hstep
    exact iff_of_true (updateCell_save_valid h hupdate hsave) trivial
  | ban targets banned unbanOwned answer =>
    have hban : r.ban targets banned unbanOwned answer = .ok r' := hstep
    unfold ban at hban
    split_ifs at hban
    cases hban
    exact exclude_valid_iff h _ banned
  | deleteCell id => exact iff_of_true (deleteCell_valid h hstep) trivial

/-- In every state that such steps reach, the LANs of the active cells are disjoint and the whole UVN
passes its validation. -/
theorem lans_disjoint {r₀ : Registry} (h₀ : r₀.uvn.validate = .ok ())
    (hrun : Run.Reaches step (fun r op => op.Ok r) r₀ r) :
    r.uvn.LansDisjoint ∧ r.uvn.validate = .ok () := by
  have hvalid : r.uvn.Valid :=
    hrun.invariant (I := fun r => r.uvn.Valid) h₀ fun r op r' h hok hstep =>
      (step_valid_iff h hstep).mpr hok
  exact ⟨hvalid.lansDisjoint, hvalid⟩

/-- A registry without cells whose UVN is owned by user 1. -/
def fresh : Registry where
  uvn := ⟨1, none, true, [], [], 0, 0, List.nodup_nil, by simp, List.nodup_nil, by simp⟩
  userRows := [⟨1, false⟩]
  dirty := false

/-- `10.0.0.0/24`. -/
def lan10 : IPv4Network := ⟨⟨10 * 2 ^ 24, IPv4Network.lt_10⟩, 24, IPv4Network.le_24, IPv4Network.aligned_10_24⟩

/-- `10.0.1.0/24`. -/
def lan10' : IPv4Network := ⟨⟨10 * 2 ^ 24 + 2 ^ 8, by decide⟩, 24, IPv4Network.le_24, by decide⟩

/-- `20.0.0.0/24`. -/
def lan20 : IPv4Network := ⟨⟨20 * 2 ^ 24, by decide⟩, 24, IPv4Network.le_24, by decide⟩

/-- Two cells, of which the first is banned while the other one gets more LANs, and then unbanned. -/
theorem lans_disjoint_unbanned : ∃ r, Run.Reaches step (fun r op => op.Ok r) fresh r ∧
    r.uvn.cells.map (fun c => (c.id, c.allowedLans)) = [(1, [lan10]), (2, [lan10', lan20])] ∧
    r.uvn.LansDisjoint ∧ r.uvn.validate = .ok () := by
  obtain ⟨r, hrun, hcells⟩ : ∃ r, Run.Reaches step (fun r op => op.Ok r) fresh r ∧
      r.uvn.cells.map (fun c => (c.id, c.allowedLans)) = [(1, [lan10]), (2, [lan10', lan20])] := by
    refine ⟨_, .step (.ban [.cell 1] false false fun _ => true) (.step (.updateCell 2 [lan10', lan20])
      (.step (.ban [.cell 1] true false fun _ => true) (.step (.addCell none (some "b.example") [lan10'])
        (.step (.addCell none (some "a.example") [lan10]) .refl ?_ rfl) ?_ rfl) ?_ rfl) trivial rfl) ?_ rfl, rfl⟩
    · exact fun d hd => absurd hd List.not_mem_nil
    · exact fun d hd => absurd hd List.not_mem_nil
    · exact fun hbanned => absurd hbanned (by decide)
    · -- cell 1 is the only banned one
      intro _ c hc _ d hd hne
      rw [List.mem_singleton.mp hc, List.mem_singleton.mp hd] at hne
      exact absurd rfl hne
  exact ⟨r, hrun, hcells, lans_disjoint (show fresh.uvn.validate = .ok () from rfl) hrun⟩

/-- A range that is used again while its cell is banned: after the cell is unbanned, two active cells
have it. -/
theorem lans_clash : ¬ ∀ r, Run.Reaches step (fun _ _ => True) fresh r →
    r.uvn.LansDisjoint ∧ r.uvn.validate = .ok () := by
  intro h
  obtain ⟨r, hr, c, hc, d, hd, hne, hlan, hlan'⟩ : ∃ r, Run.Reaches step (fun _ _ => True) fresh r ∧
      ∃ c ∈ r.uvn.cells, ∃ d ∈ r.uvn.cells, d.id ≠ c.id ∧ lan10 ∈ c.allowedLans ∧ lan10 ∈ d.allowedLans := by
    refine ⟨_, .step (.ban [.cell 1] false true fun _ => true) (.step (.addCell none (some "b.example") [lan10])
      (.step (.ban [.cell 1] true true fun _ => true) (.step (.addCell none (some "a.example") [lan10])
        .refl trivial rfl) trivial rfl) trivial rfl) trivial rfl, ?_⟩
    exact ⟨_, .head _, _, .tail _ (.head _), by decide, .head _, .head _⟩
  exact (h r hr).1 c hc d hd hne lan10 hlan lan10 hlan' (IPv4Network.overlaps_self lan10)

end Registry

end Uno
