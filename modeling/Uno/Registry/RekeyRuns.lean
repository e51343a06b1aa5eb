import Uno.Registry.Generate
import Uno.Lib.Run

/-!
# Runs of rekeyings of the root VPN

Rekeyings of the root VPN, of the whole UVN or of one cell, each followed by the key pass of
`generate_artifacts`. The first rekeying of a key keeps its row, with the flag, and a new key takes its place; a
later one deletes the key, when `rekeyed_cells` says that the cell has a dropped key already. The root's own key
is not looked up there, and `rekeyed_cells` is computed only once: with a step that meets `RekeyAct.Ok` the
dropped keys stay those from before the first rekeying (`rekeys_keep`).
-/

namespace Uno

/-- `rekey_uvn(root_vpn=True)` and `rekey_cell(cell, root_vpn=True)`, with what follows them. -/
inductive RekeyAct where
  | rekeyUvn
  | rekeyCell (c : ℕ)
  /-- The registry is opened again. -/
  | reopen

/-- A registry, and the places of the root VPN that were rekeyed. -/
structure Rekeying where
  keys : RegistryKeys
  renewed : List KeyPlace

/-- The key pair at a place. -/
def Keymat.keyPair (m : Keymat) (k : KeyPlace) : Option String := (m.keys.get? k).map KeyObject.value

/-- The preshared keys of the root with a peer. -/
def Keymat.psks (m : Keymat) (p : ℕ) : Option (List String) :=
  (m.presharedKeys.content.get? (0, p)).map (List.map KeyObject.value)

section steps
variable (settings : UvnSettings) (source : Vpn → ℕ → String)

def RekeyAct.apply (s : RegistryKeys) : RekeyAct → Result RegistryKeys
  | .rekeyUvn => do (← s.rekeyUvn true false false).generateKeys settings source
  | .rekeyCell c => do (← s.rekeyCell c true false false).generateKeys settings source
  | .reopen => .ok { s with rekeyed := none }

/-- The places that a rekeying renews. -/
def RekeyAct.places (u : Uvn) : RekeyAct → List KeyPlace
  | .rekeyUvn => .root :: u.activeIds.map .peer
  | .rekeyCell c => [.peer c]
  | .reopen => []

def Rekeying.step (t : Rekeying) (a : RekeyAct) : Result Rekeying := do
  .ok ⟨← a.apply settings source t.keys, t.renewed ++ a.places t.keys.uvn⟩

end steps

/-- `rekeyed_cells`, if it was computed, has those of some cells that have a dropped key. -/
def RegistryKeys.UpToDate (s : RegistryKeys) (cells : List ℕ) : Prop :=
  ∀ ids, s.rekeyed = some ids → ∀ c ∈ cells, s.rootVpn.table.get? (.peer c) true ≠ none → c ∈ ids

/-- The root has no dropped key when all keys are rekeyed, and `rekeyed_cells` is up to date. -/
def RekeyAct.Ok (t : Rekeying) : RekeyAct → Prop
  | .rekeyUvn => t.keys.rootVpn.table.get? .root true = none ∧ t.keys.UpToDate t.keys.uvn.activeIds
  | .rekeyCell c => c ∈ t.keys.uvn.activeIds ∧ t.keys.UpToDate [c]
  | .reopen => True

namespace RegistryKeys

/-- A registry after `generate_artifacts`, with no dropped key of the root VPN: the root and the active cells
have keys, and the other keys belong to banned cells. -/
structure Generated (s : RegistryKeys) : Prop where
  root : s.rootVpn = .load s.rootVpn.rows
  particles : ∀ c, s.particlesVpns c = .load (s.particlesVpns c).rows
  clean : s.registry.dirty = false
  enabled : s.uvn.enableRootVpn
  ids_pos : 0 ∉ s.uvn.allCellIds
  rootKey : s.rootVpn.table.get? .root false ≠ none
  cellKeys : ∀ c ∈ s.uvn.activeIds, s.rootVpn.table.get? (.peer c) false ≠ none
  peers : ∀ p, s.rootVpn.table.get? (.peer p) false ≠ none → p ∈ s.uvn.allCellIds
  psks : ∀ k, s.rootVpn.presharedKeys.table.get? k false ≠ none ↔
    ∃ p, s.rootVpn.table.get? (.peer p) false ≠ none ∧ k = ((0, p), 0)
  undropped : ∀ k, s.rootVpn.table.get? k true = none
  psks_undropped : ∀ k, s.rootVpn.presharedKeys.table.get? k true = none
  uncached : ∀ ids, s.rekeyed = some ids → ids = []

variable {s₀ s : RegistryKeys}

theorem Generated.wanted_iff (h : s₀.Generated) (hbanned : s₀.NoBanned) (k : KeyPlace) :
    s₀.rootVpn.table.get? k false ≠ none ↔ Keymat.Wanted s₀.uvn.activeIds k := by
  cases k with
  | root => exact iff_of_true h.rootKey trivial
  | peer p =>
    refine ⟨fun hkey => ?_, h.cellKeys p⟩
    have hmem := h.peers p hkey
    rwa [hbanned.allCellIds] at hmem

theorem Generated.wantedPair_iff (h : s₀.Generated) (hbanned : s₀.NoBanned) (k : (ℕ × ℕ) × ℕ) :
    s₀.rootVpn.presharedKeys.table.get? k false ≠ none ↔ Keymat.WantedPair s₀.uvn.activeIds k := by
  rw [h.psks]
  simp only [h.wanted_iff hbanned]
  exact Iff.rfl

end RegistryKeys

namespace Rekeying

variable {settings : UvnSettings} {source : Vpn → ℕ → String} {s₀ : RegistryKeys} {t : Rekeying}

/-- The preshared keys that were renewed. -/
def RenewedPair (renewed : List KeyPlace) (k : (ℕ × ℕ) × ℕ) : Prop := ∃ c, k = ((0, c), 0) ∧ .peer c ∈ renewed

/-- What a run of rekeyings keeps. -/
structure Inv (source : Vpn → ℕ → String) (s₀ : RegistryKeys) (t : Rekeying) : Prop where
  root : t.keys.rootVpn = .load t.keys.rootVpn.rows
  particles : ∀ c, t.keys.particlesVpns c = .load (t.keys.particlesVpns c).rows
  registry : t.keys.registry = s₀.registry
  keys : FlaggedTable.Renewed (source .root) s₀.rootVpn.table (· ∈ t.renewed) t.keys.rootVpn.table
  psks : FlaggedTable.Renewed (source .root) s₀.rootVpn.presharedKeys.table (RenewedPair t.renewed)
    t.keys.rootVpn.presharedKeys.table
  places : ∀ k ∈ t.renewed, Keymat.Wanted s₀.uvn.activeIds k
  cached : ∀ ids, t.keys.rekeyed = some ids → ∀ c ∈ ids, .peer c ∈ t.renewed

theorem Inv.refl (h : s₀.Generated) : Inv source s₀ ⟨s₀, []⟩ := by
  refine ⟨h.root, h.particles, rfl, ?_, ?_, nofun, fun ids hids c hc => ?_⟩
  · exact (FlaggedTable.Renewed.refl _ h.undropped).congr fun k => by simp
  · exact (FlaggedTable.Renewed.refl _ h.psks_undropped).congr fun k => by simp [RenewedPair]
  · rw [h.uncached ids hids] at hc
    cases hc

theorem Inv.uvn (hinv : Inv source s₀ t) : t.keys.uvn = s₀.uvn := congrArg Registry.uvn hinv.registry

theorem Inv.tidy (hinv : Inv source s₀ t) : t.keys.rootVpn.Tidy ∧ t.keys.rootVpn.Settled :=
  ⟨hinv.root ▸ Keymat.tidy_load _, hinv.root ▸ Keymat.settled_load _⟩

section inv
variable (h : s₀.Generated) (hbanned : s₀.NoBanned) (hinv : Inv source s₀ t)

include h hbanned hinv

theorem Inv.wanted_iff (k : KeyPlace) :
    t.keys.rootVpn.table.get? k false ≠ none ↔ Keymat.Wanted s₀.uvn.activeIds k := by
  by_cases hk : k ∈ t.renewed
  · obtain ⟨i, -, hnew⟩ := hinv.keys.new k hk
    exact iff_of_true (by rw [hnew]; nofun) (hinv.places k hk)
  · rw [hinv.keys.active k hk]
    exact h.wanted_iff hbanned k

theorem Inv.wantedPair_iff (k : (ℕ × ℕ) × ℕ) :
    t.keys.rootVpn.presharedKeys.table.get? k false ≠ none ↔ Keymat.WantedPair s₀.uvn.activeIds k := by
  by_cases hk : RenewedPair t.renewed k
  · obtain ⟨i, -, hnew⟩ := hinv.psks.new k hk
    obtain ⟨c, rfl, hc⟩ := hk
    exact iff_of_true (by rw [hnew]; nofun) ⟨c, hinv.places _ hc, rfl⟩
  · rw [hinv.psks.active k hk]
    exact h.wantedPair_iff hbanned k

/-- A place has a dropped key exactly when it was renewed. -/
theorem Inv.dropped_iff (k : KeyPlace) : t.keys.rootVpn.table.get? k true ≠ none ↔ k ∈ t.renewed := by
  by_cases hk : k ∈ t.renewed
  · rw [hinv.keys.old k hk]
    exact iff_of_true ((h.wanted_iff hbanned k).mpr (hinv.places k hk)) hk
  · exact iff_of_false (fun hne => hne (hinv.keys.unflagged k hk)) hk

theorem Inv.exists_readRekeyedCells {ids : List ℕ} (hdate : t.keys.UpToDate ids)
    (hids : ∀ c ∈ ids, c ∈ s₀.uvn.activeIds) :
    ∃ l rekeyed, t.keys.readRekeyedCells (fun _ => false) = .ok (l, { t.keys with rekeyed := rekeyed }) ∧
      (∀ c ∈ ids, c ∈ l ↔ .peer c ∈ t.renewed) ∧ ∀ l, rekeyed = some l → ∀ c ∈ l, .peer c ∈ t.renewed := by
  unfold RegistryKeys.readRekeyedCells
  rw [hinv.uvn]
  by_cases hall : s₀.uvn.activeIds.all (fun _ => false) = true
  · refine ⟨[], t.keys.rekeyed, if_pos hall, fun c hc => ?_, hinv.cached⟩
    exact absurd (List.all_eq_true.mp hall c (hids c hc)) nofun
  · rw [if_neg hall]
    cases hcached : t.keys.rekeyed with
    | some l =>
      refine ⟨l, t.keys.rekeyed, ?_, fun c hc => ⟨hinv.cached l hcached c, fun hren => hdate l hcached c hc ?_⟩, ?_⟩
      · have hsame : t.keys = { t.keys with rekeyed := some l } := by rw [← hcached]
        unfold RegistryKeys.rekeyedCells
        rw [hcached]
        exact congrArg (fun s => Except.ok (l, s)) hsame
      · exact (hinv.dropped_iff h hbanned _).mpr hren
      · exact hinv.cached
    | none =>
      have hmem : ∀ p, p ∈ t.keys.rootVpn.droppedPeers ↔ .peer p ∈ t.renewed := fun p => by
        rw [Keymat.mem_droppedPeers, hinv.dropped_iff h hbanned]
      have hmapM : t.keys.rootVpn.droppedPeers.mapM
          (fun p => if p ∈ t.keys.uvn.activeIds then (.ok p : Result ℕ) else .error .stopIteration) =
            .ok (t.keys.rootVpn.droppedPeers.map id) :=
        Fold.mapM_eq_ok fun p hp => if_pos (by rw [hinv.uvn]; exact hinv.places _ ((hmem p).mp hp))
      refine ⟨t.keys.rootVpn.droppedPeers, some t.keys.rootVpn.droppedPeers, ?_, fun c _ => hmem c, ?_⟩
      · unfold RegistryKeys.rekeyedCells
        rw [hcached]
        simp only [hmapM, List.map_id]
        rfl
      · rintro l ⟨rfl⟩ c hc
        exact (hmem c).mp hc

/-- The delete map of a rekeying: it has the cells that were renewed before, and not the root. -/
theorem Inv.exists_dropOrDelete {ids : List ℕ} (hdate : t.keys.UpToDate ids) (hids : ∀ c ∈ ids, c ∈ s₀.uvn.activeIds) :
    ∃ deletes rekeyed, t.keys.dropOrDelete (fun _ => false) = .ok (deletes, { t.keys with rekeyed := rekeyed }) ∧
      (∀ c ∈ ids, deletes c = true ↔ .peer c ∈ t.renewed) ∧ deletes 0 = false ∧
      ∀ l, rekeyed = some l → ∀ c ∈ l, .peer c ∈ t.renewed := by
  obtain ⟨l, rekeyed, hread, hmem, hcached⟩ := hinv.exists_readRekeyedCells h hbanned hdate hids
  have hzero : 0 ∉ s₀.uvn.activeIds := fun hmem => h.ids_pos (Uvn.mem_allCellIds_of_active hmem)
  refine ⟨fun p => decide (p ∈ s₀.uvn.activeIds) && (false || decide (p ∈ l)), rekeyed, ?_, fun c hc => ?_, ?_, hcached⟩
  · rw [RegistryKeys.dropOrDelete, hread, ← hinv.uvn]
    rfl
  · rw [← hmem c hc]
    simp [hids c hc]
  · simp [hzero]

variable (settings) in
theorem Inv.exists_generate {m : Keymat} {rekeyed : Option (List ℕ)} {S : KeyPlace → Prop} {P : ℕ × ℕ → Prop}
    {deletes : ℕ → Bool} {places : List KeyPlace} (hready : m.Ready) (hlast : m.lastIds = t.keys.rootVpn.lastIds)
    (hkeys : ∀ r, m.After r ↔ FlaggedTable.Removal t.keys.rootVpn.After S (fun k => Keymat.deletesKey false deletes k) r)
    (hpsks : ∀ r, m.presharedKeys.After r ↔ FlaggedTable.Removal t.keys.rootVpn.presharedKeys.After (VpnKeysMap.At P)
      (fun k => VpnKeysMap.deletesPair false deletes k.1) r)
    (hS : ∀ k, Keymat.Wanted s₀.uvn.activeIds k → (S k ↔ k ∈ places))
    (hplaces : ∀ k ∈ places, Keymat.Wanted s₀.uvn.activeIds k)
    (hP : ∀ c ∈ s₀.uvn.activeIds, P (0, c) ↔ .peer c ∈ places)
    (hdeletes : ∀ k ∈ places, deletes k.peerId = true ↔ k ∈ t.renewed) (hzero : deletes 0 = false)
    (hcached : ∀ l, rekeyed = some l → ∀ c ∈ l, .peer c ∈ t.renewed) :
    ∃ s', RegistryKeys.generateKeys settings source { t.keys with rekeyed := rekeyed, rootVpn := m } = .ok s' ∧
      Inv source s₀ ⟨s', t.renewed ++ places⟩ := by
  obtain ⟨htidy, hsettled⟩ := hinv.tidy
  have hwanted := hinv.wanted_iff h hbanned
  have hwantedPair := hinv.wantedPair_iff h hbanned
  have hpeers : ∀ p, m.keys.get? (.peer p) ≠ none → p ∈ t.keys.uvn.allCellIds := by
    intro p hp
    obtain ⟨o, ho⟩ := Option.ne_none_iff_exists'.mp hp
    have hafter := (hkeys _).mp ((hready.tidy.keys _ o).mp ho)
    have hrow := hsettled.after_iff.mp ((FlaggedTable.removal_iff_of_not_flag rfl).mp hafter).1
    have hget := FlaggedTable.get?_eq_some_iff.mpr ⟨_, hrow, rfl, rfl, rfl⟩
    rw [hinv.uvn]
    exact Uvn.mem_allCellIds_of_active ((hwanted (.peer p)).mp (by rw [hget]; nofun))
  obtain ⟨root, particles, table, hgenerate, hrows, hpskRows, hlast', hgrows, hgrows'⟩ :=
    RegistryKeys.exists_generateKeys (s := { t.keys with rekeyed := rekeyed, rootVpn := m }) settings source
      ⟨hready, fun c => by
        change (t.keys.particlesVpns c).Ready
        rw [hinv.particles]
        exact Keymat.ready_load _⟩
      (by change t.keys.registry.dirty = false; rw [hinv.registry]; exact h.clean)
      (by change t.keys.uvn.enableRootVpn = true; rw [hinv.uvn]; exact h.enabled)
      (by change t.keys.uvn.excludedCells = []; rw [hinv.uvn]; exact hbanned) hpeers
  change FlaggedTable.Grows _ (Keymat.Wanted t.keys.uvn.activeIds) _ _ at hgrows
  change FlaggedTable.Grows _ (Keymat.WantedPair t.keys.uvn.activeIds) _ _ at hgrows'
  rw [hinv.uvn] at hgrows hgrows'
  obtain ⟨hlastKeys, hlastPsks⟩ := Prod.mk.inj (hlast'.trans hlast)
  have hkeyRows : ∀ r, r ∈ table.keys.rows ↔ FlaggedTable.Removal (· ∈ t.keys.rootVpn.table.rows) S
      (fun k => Keymat.deletesKey false deletes k) r := fun r =>
    (hrows r).trans ((hkeys r).trans (FlaggedTable.Removal.congr fun r => hsettled.after_iff))
  have hpairRows : ∀ r, r ∈ table.psks.rows ↔ FlaggedTable.Removal (· ∈ t.keys.rootVpn.presharedKeys.table.rows)
      (VpnKeysMap.At P) (fun k => VpnKeysMap.deletesPair false deletes k.1) r := fun r =>
    (hpskRows r).trans ((hpsks r).trans (FlaggedTable.Removal.congr fun r => hsettled.psks.after_iff))
  refine ⟨_, hgenerate, rfl, fun _ => rfl, hinv.registry, ?_, ?_, fun k hk => ?_, fun l hl c hc => ?_⟩
  · refine (hinv.keys.step (Keymat.deletesKey false deletes) hkeyRows hlastKeys hgrows
      (fun k hk => (h.wanted_iff hbanned k).mpr hk)
      (fun k hk => not_not.mp fun hne => hk ((hwanted k).mp hne)) fun k hk hadd => ?_).congr fun k => ?_
    · rw [← hdeletes k ((hS k hadd).mp hk), Keymat.deletesKey, Bool.false_or]
    · rw [List.mem_append]
      refine or_congr_right ⟨fun hk => (hS k hk.2).mp hk.1, fun hk => ⟨(hS k (hplaces k hk)).mpr hk, hplaces k hk⟩⟩
  · refine (hinv.psks.step (fun k => VpnKeysMap.deletesPair false deletes k.1) hpairRows hlastPsks hgrows'
      (fun k hk => (h.wantedPair_iff hbanned k).mpr hk)
      (fun k hk => not_not.mp fun hne => hk ((hwantedPair k).mp hne)) fun k hk hadd => ?_).congr fun k => ?_
    · obtain ⟨c, hc, rfl⟩ := hadd
      have hplace := (hP c hc).mp hk.2
      rw [VpnKeysMap.deletesPair, hzero, Bool.false_or, Bool.false_or]
      refine (hdeletes _ hplace).trans ⟨fun hren => ⟨c, rfl, hren⟩, ?_⟩
      rintro ⟨c', heq, hren⟩
      cases heq
      exact hren
    · constructor
      · rintro (⟨c, rfl, hc⟩ | ⟨hk, c, hc, rfl⟩)
        · exact ⟨c, rfl, List.mem_append_left _ hc⟩
        · exact ⟨c, rfl, List.mem_append_right _ ((hP c hc).mp hk.2)⟩
      · rintro ⟨c, rfl, hc⟩
        rcases List.mem_append.mp hc with hc | hc
        · exact .inl ⟨c, rfl, hc⟩
        · have hactive : c ∈ s₀.uvn.activeIds := hplaces _ hc
          exact .inr ⟨⟨rfl, (hP c hactive).mpr hc⟩, c, hactive, rfl⟩
  · rcases List.mem_append.mp hk with hk | hk
    · exact hinv.places k hk
    · exact hplaces k hk
  · exact List.mem_append_left _ (hcached l hl c hc)

theorem Inv.droppable {S : KeyPlace → Prop} {deletes : ℕ → Bool}
    (hdeletes : ∀ k, S k → Keymat.Wanted s₀.uvn.activeIds k → k ∈ t.renewed → deletes k.peerId = true) :
    t.keys.rootVpn.Droppable S (Keymat.deletesKey false deletes) := by
  obtain ⟨htidy, hsettled⟩ := hinv.tidy
  intro k hk hdel hkey r hr hrkey
  have hwanted : Keymat.Wanted s₀.uvn.activeIds k := by
    rw [← hinv.wanted_iff h hbanned, Keymat.get?_table htidy hsettled, ne_eq, Option.map_eq_none_iff]
    exact hkey
  have hfresh : k ∉ t.renewed := fun hren => by
    rw [Keymat.deletesKey, Bool.false_or, hdeletes k hk hwanted hren] at hdel
    cases hdel
  have hnone := FlaggedTable.get?_eq_none_iff.mp (hinv.keys.unflagged k hfresh) r (hsettled.after_iff.mp hr) hrkey
  simpa using hnone

theorem Inv.droppable_psks {P : ℕ × ℕ → Prop} {deletes : ℕ → Bool}
    (hdeletes : ∀ c ∈ s₀.uvn.activeIds, P (0, c) → .peer c ∈ t.renewed → deletes c = true) :
    t.keys.rootVpn.presharedKeys.Droppable P (VpnKeysMap.deletesPair false deletes) := by
  obtain ⟨htidy, hsettled⟩ := hinv.tidy
  intro p hp hdel hkey r hr hrkey
  have hactive : t.keys.rootVpn.presharedKeys.table.get? (p, 0) false ≠ none := fun hnone =>
    hkey ((htidy.psks.get?_table hsettled.psks p).mp hnone)
  obtain ⟨c, hc, heq⟩ := (hinv.wantedPair_iff h hbanned (p, 0)).mp hactive
  obtain rfl : p = (0, c) := (Prod.mk.inj heq).1
  have hfresh : ¬ RenewedPair t.renewed ((0, c), 0) := by
    rintro ⟨c', heq, hren⟩
    cases heq
    rw [VpnKeysMap.deletesPair, hdeletes c hc hp hren, Bool.or_true] at hdel
    cases hdel
  have hnone := FlaggedTable.get?_eq_none_iff.mp (hinv.psks.unflagged _ hfresh) r
    (hsettled.psks.after_iff.mp hr) hrkey
  simpa using hnone

variable (settings) in
theorem Inv.exists_rekeyUvn (hok : RekeyAct.rekeyUvn.Ok t) :
    ∃ s', RekeyAct.rekeyUvn.apply settings source t.keys = .ok s' ∧
      Inv source s₀ ⟨s', t.renewed ++ RekeyAct.rekeyUvn.places t.keys.uvn⟩ := by
  obtain ⟨hroot, hdate⟩ := hok
  rw [hinv.uvn] at hdate ⊢
  let t' : Rekeying := ⟨{ t.keys with rekeying := true }, t.renewed⟩
  have hinv' : Inv source s₀ t' :=
    ⟨hinv.root, hinv.particles, hinv.registry, hinv.keys, hinv.psks, hinv.places, hinv.cached⟩
  obtain ⟨deletes, rekeyed, hdeletes, hmem, hzero, hcached⟩ :=
    hinv'.exists_dropOrDelete h hbanned hdate fun c hc => hc
  have hrootFresh : .root ∉ t.renewed := fun hren => (hinv.dropped_iff h hbanned .root).mpr hren hroot
  have hplaces : ∀ k, k ∈ RekeyAct.rekeyUvn.places s₀.uvn ↔ Keymat.Wanted s₀.uvn.activeIds k := by
    intro k
    cases k with
    | root => simp [RekeyAct.places, Keymat.Wanted]
    | peer c => simp [RekeyAct.places, Keymat.Wanted]
  have hdel : ∀ k, Keymat.Wanted s₀.uvn.activeIds k → (deletes k.peerId = true ↔ k ∈ t.renewed) := by
    intro k hk
    cases k with
    | root => exact iff_of_false (by rw [KeyPlace.peerId, hzero]; exact Bool.false_ne_true) hrootFresh
    | peer c => exact hmem c hk
  have hclear : t.keys.rootVpn.Clear := hinv.root ▸ Keymat.clear_load _
  obtain ⟨n, m, hdrop, hclear'⟩ := hclear.exists_dropKeys hinv.tidy.1 false deletes
    (hinv.droppable h hbanned fun k _ hk hren => (hdel k hk).mpr hren)
    (hinv.droppable_psks h hbanned fun c hc _ hren => (hmem c hc).mpr hren)
  obtain ⟨htidy, hkeys, hpsks⟩ := hinv.tidy.1.dropKeys hdrop
  obtain ⟨s', hgenerate, hinv''⟩ := hinv'.exists_generate settings h hbanned
    ⟨htidy, hclear'⟩ (Keymat.lastIds_dropKeys hdrop) hkeys hpsks (fun k hk => iff_of_true trivial ((hplaces k).mpr hk))
    (fun k hk => (hplaces k).mp hk) (fun c hc => iff_of_true trivial ((hplaces _).mpr hc))
    (fun k hk => hdel k ((hplaces k).mp hk)) hzero hcached
  refine ⟨s', ?_, hinv''⟩
  have hrekey : t.keys.rekeyUvn true false false =
      .ok { t.keys with rekeying := true, rekeyed := rekeyed, rootVpn := m } := by
    change (RegistryKeys.rekeyRoot t.keys false >>= _) = _
    unfold RegistryKeys.rekeyRoot
    change ((t'.keys.dropOrDelete fun _ => false) >>= _) >>= _ = _
    rw [hdeletes, Except.ok_bind]
    change (t.keys.rootVpn.dropKeys false deletes >>= _) >>= _ = _
    rw [hdrop]
    rfl
  rw [RekeyAct.apply, hrekey]
  exact hgenerate

variable (settings) in
theorem Inv.exists_rekeyCell {c : ℕ} (hok : (RekeyAct.rekeyCell c).Ok t) :
    ∃ s', (RekeyAct.rekeyCell c).apply settings source t.keys = .ok s' ∧
      Inv source s₀ ⟨s', t.renewed ++ (RekeyAct.rekeyCell c).places t.keys.uvn⟩ := by
  obtain ⟨hactive, hdate⟩ := hok
  rw [hinv.uvn] at hactive
  let t' : Rekeying := ⟨{ t.keys with rekeying := t.keys.rekeying || !false }, t.renewed⟩
  have hinv' : Inv source s₀ t' :=
    ⟨hinv.root, hinv.particles, hinv.registry, hinv.keys, hinv.psks, hinv.places, hinv.cached⟩
  obtain ⟨htidy₀, hsettled₀⟩ := hinv.tidy
  obtain ⟨deletes, rekeyed, hdeletes, hmem, hzero, hcached⟩ :=
    hinv'.exists_dropOrDelete h hbanned hdate fun d hd => List.mem_singleton.mp hd ▸ hactive
  have hmem := hmem c List.mem_cons_self
  -- the other active cells stay, so that the keys of this one are those that go
  let others := s₀.uvn.activeIds.filter (· ≠ c)
  have hgone : ∀ k, Keymat.Wanted s₀.uvn.activeIds k → (k.Gone others ↔ k = .peer c) := by
    intro k hk
    cases k with
    | root => exact iff_of_false (KeyPlace.not_gone_root _) nofun
    | peer d =>
      rw [KeyPlace.peer.injEq]
      change d ∉ others ↔ d = c
      have hd : d ∈ s₀.uvn.activeIds := hk
      simp [others, hd]
  have hkeyed : ∀ p, t.keys.rootVpn.keys.get? (.peer p) ≠ none ↔ p ∈ s₀.uvn.activeIds := by
    intro p
    rw [ne_eq, ← Option.map_eq_none_iff (f := KeyObject.value), ← Keymat.get?_table htidy₀ hsettled₀]
    exact hinv.wanted_iff h hbanned (.peer p)
  have hpurged : ∀ p, p ∈ t.keys.rootVpn.gonePeers others ↔ p = c := by
    intro p
    rw [Keymat.gonePeers, List.mem_filter, Dict.mem_keys_iff, ← Option.ne_none_iff_exists', ← Keymat.get?_keys_peer, hkeyed,
      decide_eq_true_eq]
    constructor
    · rintro ⟨hp, hnot⟩
      exact KeyPlace.peer.inj ((hgone (.peer p) hp).mp hnot)
    · rintro rfl
      exact ⟨hactive, (hgone (.peer p) hactive).mpr rfl⟩
  have hpair : ∀ d, (0 ∈ t.keys.rootVpn.gonePeers others ∨ d ∈ t.keys.rootVpn.gonePeers others) ↔ d = c := by
    intro d
    have hcpos : 0 ≠ c := fun heq => h.ids_pos (heq ▸ Uvn.mem_allCellIds_of_active hactive)
    rw [hpurged, hpurged]
    simp [hcpos]
  have hclear : t.keys.rootVpn.Clear := hinv.root ▸ Keymat.clear_load _
  obtain ⟨gone, m, hpurge, hclear'⟩ := hclear.exists_purgeGonePeers htidy₀ others false deletes
    (hinv.droppable h hbanned fun k hk hwanted hren => by
      obtain rfl := (hgone k hwanted).mp hk
      exact hmem.mpr hren)
    (hinv.droppable_psks h hbanned fun d hd hpurged hren => by
      obtain rfl := (hpair d).mp hpurged
      exact hmem.mpr hren)
  obtain ⟨htidy, hkeys, hpsks⟩ := htidy₀.purgeGonePeers hpurge
  obtain ⟨s', hgenerate, hinv''⟩ := hinv'.exists_generate settings h hbanned
    ⟨htidy, hclear'⟩ (Keymat.lastIds_purgeGonePeers hpurge) hkeys hpsks
    (fun k hk => (hgone k hk).trans List.mem_singleton.symm)
    (fun k hk => List.mem_singleton.mp hk ▸ hactive)
    (fun d hd => (hpair d).trans (by rw [List.mem_singleton, KeyPlace.peer.injEq]))
    (fun k hk => List.mem_singleton.mp hk ▸ hmem) hzero hcached
  refine ⟨s', ?_, hinv''⟩
  have hrekey : t.keys.rekeyCell c true false false =
      .ok { t'.keys with rekeyed := rekeyed, rootVpn := m } := by
    change (RegistryKeys.rekeyRootPeer t.keys c false >>= _) = _
    unfold RegistryKeys.rekeyRootPeer
    simp only [Bool.and_false]
    change ((t'.keys.dropOrDelete fun _ => false) >>= _) >>= _ = _
    rw [hdeletes, Except.ok_bind]
    change (t.keys.rootVpn.purgeGonePeers (t.keys.uvn.activeIds.filter (· ≠ c)) false deletes >>= _) >>= _ = _
    rw [hinv.uvn, hpurge]
    rfl
  rw [RekeyAct.apply, hrekey]
  exact hgenerate

variable (settings) in
/-- A rekeying that meets its condition succeeds, and keeps the invariant. -/
theorem Inv.exists_step {a : RekeyAct} (hok : a.Ok t) :
    ∃ t', t.step settings source a = .ok t' ∧ Inv source s₀ t' := by
  cases a with
  | rekeyUvn =>
    obtain ⟨s', happly, hinv'⟩ := hinv.exists_rekeyUvn settings h hbanned hok
    exact ⟨_, by rw [step, happly]; rfl, hinv'⟩
  | rekeyCell c =>
    obtain ⟨s', happly, hinv'⟩ := hinv.exists_rekeyCell settings h hbanned hok
    exact ⟨_, by rw [step, happly]; rfl, hinv'⟩
  | reopen =>
    refine ⟨_, rfl, hinv.root, hinv.particles, hinv.registry, ?_, ?_, fun k hk => ?_, nofun⟩
    · exact hinv.keys.congr fun k => by rw [RekeyAct.places, List.append_nil]
    · exact hinv.psks.congr fun k => by rw [RekeyAct.places, List.append_nil]
    · rw [RekeyAct.places, List.append_nil] at hk
      exact hinv.places k hk

end inv

/-! ### Runs -/

/-- What the key material of the root VPN gives after a run: the one with `prefer_dropped` has the keys from
before the run, and the current one has new keys at the places that were rekeyed. -/
structure Keeps (source : Vpn → ℕ → String) (s₀ : RegistryKeys) (t : Rekeying) : Prop where
  unique : ∀ r ∈ t.keys.rootVpn.table.rows, ∀ r' ∈ t.keys.rootVpn.table.rows, r.key = r'.key → r.flag = r'.flag → r = r'
  psks_unique : ∀ r ∈ t.keys.rootVpn.presharedKeys.table.rows, ∀ r' ∈ t.keys.rootVpn.presharedKeys.table.rows,
    r.key = r'.key → r.flag = r'.flag → r = r'
  rekeyed : ∀ k, (Keymat.loadRekeyed t.keys.rootVpn.rows).keyPair k = s₀.rootVpn.keyPair k
  rekeyed_psk : ∀ p, (Keymat.loadRekeyed t.keys.rootVpn.rows).psks p = s₀.rootVpn.psks p
  current : ∀ k ∉ t.renewed, t.keys.rootVpn.keyPair k = s₀.rootVpn.keyPair k
  current_psk : ∀ p, .peer p ∉ t.renewed → t.keys.rootVpn.psks p = s₀.rootVpn.psks p
  renewed : ∀ k ∈ t.renewed, ∃ i, s₀.rootVpn.table.lastId < i ∧ t.keys.rootVpn.keyPair k = some (source .root i)
  renewed_psk : ∀ p, .peer p ∈ t.renewed →
    ∃ i, s₀.rootVpn.presharedKeys.table.lastId < i ∧ t.keys.rootVpn.psks p = some [source .root i]

theorem Inv.keeps (h : s₀.Generated) (hbanned : s₀.NoBanned) (hinv : Inv source s₀ t) : Keeps source s₀ t := by
  have hkeys₀ : ∀ k, s₀.rootVpn.table.get? k false = s₀.rootVpn.keyPair k :=
    Keymat.get?_table (h.root ▸ Keymat.tidy_load _) (h.root ▸ Keymat.settled_load _)
  have hkeys : ∀ k, t.keys.rootVpn.table.get? k false = t.keys.rootVpn.keyPair k :=
    Keymat.get?_table hinv.tidy.1 hinv.tidy.2
  have hpsks₀ : ∀ p, s₀.rootVpn.psks p = (s₀.rootVpn.presharedKeys.table.get? ((0, p), 0) false).map fun v => [v] := by
    intro p
    rw [Keymat.psks, h.root]
    exact VpnKeysMap.values_loadKeys _ _ _
  have hpsks : ∀ p, t.keys.rootVpn.psks p =
      (t.keys.rootVpn.presharedKeys.table.get? ((0, p), 0) false).map fun v => [v] := by
    intro p
    rw [Keymat.psks, hinv.root]
    exact VpnKeysMap.values_loadKeys _ _ _
  have hpair : ∀ p, RenewedPair t.renewed ((0, p), 0) ↔ .peer p ∈ t.renewed := by
    intro p
    constructor
    · rintro ⟨c, heq, hc⟩
      cases heq
      exact hc
    · exact fun hp => ⟨p, rfl, hp⟩
  refine ⟨fun r hr r' hr' => FlaggedTable.eq_of_key hr hr', fun r hr r' hr' => FlaggedTable.eq_of_key hr hr',
    fun k => ?_, fun p => ?_, fun k hk => ?_, fun p hp => ?_, fun k hk => ?_, fun p hp => ?_⟩
  · refine (Keymat.get?_loadRekeyed _ k).trans ?_
    rw [← hkeys₀]
    exact hinv.keys.get?_or fun hk => (h.wanted_iff hbanned k).mpr (hinv.places k hk)
  · refine (VpnKeysMap.get?_loadRekeyed _ (0, p)).trans ?_
    rw [hpsks₀]
    exact congrArg _ (hinv.psks.get?_or fun hk => (h.wantedPair_iff hbanned _).mpr ⟨p, hinv.places _ ((hpair p).mp hk), rfl⟩)
  · rw [← hkeys, ← hkeys₀]
    exact hinv.keys.active k hk
  · rw [hpsks, hpsks₀, hinv.psks.active _ fun hren => hp ((hpair p).mp hren)]
  · obtain ⟨i, hi, hnew⟩ := hinv.keys.new k hk
    exact ⟨i, hi, by rw [← hkeys]; exact hnew⟩
  · obtain ⟨i, hi, hnew⟩ := hinv.psks.new _ ((hpair p).mpr hp)
    exact ⟨i, hi, by rw [hpsks, hnew]; rfl⟩

/-- In a run whose steps meet `RekeyAct.Ok`, from a registry without banned cells, no step fails, and the keys from
before the first rekeying stay reachable. -/
theorem rekeys_keep (settings : UvnSettings) (h : s₀.Generated) (hbanned : s₀.NoBanned)
    (hrun : Run.Reaches (Rekeying.step settings source) (fun t a => a.Ok t) ⟨s₀, []⟩ t) :
    (∀ a : RekeyAct, a.Ok t → ∃ t', t.step settings source a = .ok t') ∧ Keeps source s₀ t := by
  have hinv : Inv source s₀ t := hrun.invariant (.refl h) fun t a t' hinv hok hstep => by
    obtain ⟨t'', hstep', hinv'⟩ := hinv.exists_step settings h hbanned hok
    rw [hstep] at hstep'
    exact Except.ok.inj hstep' ▸ hinv'
  refine ⟨fun a hok => ?_, hinv.keeps h hbanned⟩
  obtain ⟨t', hstep, -⟩ := hinv.exists_step settings h hbanned hok
  exact ⟨t', hstep⟩

/-! ### An example -/

def exampleCellUvn : Uvn where
  owner := 1
  address := some "registry.example.com"
  enableRootVpn := true
  cellRows := [⟨1, 1, some "a.example.com", [], false⟩]
  particleRows := []
  nextCellId := 1
  nextParticleId := 0
  cellIds_nodup := by decide
  cellIds_le := by decide
  particleIds_nodup := Uvn.nodup_no_particleIds
  particleIds_le := Uvn.no_particleIds_le

def exampleCellRows : KeymatRows where
  keys := ⟨[⟨1, .root, "root", false⟩, ⟨2, .peer 1, "a", false⟩], 2, by decide, by decide, by decide⟩
  psks := ⟨[⟨1, ((0, 1), 0), "psk a", false⟩], 1, by decide, by decide, by decide⟩

def exampleStart : RegistryKeys := .exampleKeys exampleCellUvn exampleCellRows

def exampleRekeySource (_ : Vpn) (i : ℕ) : String := s!"key {i}"

theorem generated_exampleStart : exampleStart.Generated := by
  have hplaces : ∀ k, exampleCellRows.keys.get? k false ≠ none ↔ k = .root ∨ k = .peer 1 := by
    intro k
    rw [ne_eq, FlaggedTable.get?_eq_none_iff]
    simp only [exampleCellRows, List.mem_cons, forall_eq_or_imp]
    grind
  have hpairs : ∀ k, exampleCellRows.psks.get? k false ≠ none ↔ k = ((0, 1), 0) := by
    intro k
    rw [ne_eq, FlaggedTable.get?_eq_none_iff]
    simp only [exampleCellRows, List.mem_cons, forall_eq_or_imp]
    grind
  refine ⟨rfl, fun _ => rfl, rfl, rfl, by decide, by decide, by decide, fun p hp => ?_, fun k => ?_, fun k => ?_,
    fun k => ?_, fun _ h => by cases h⟩
  · obtain hp | hp := (hplaces _).mp hp
    · cases hp
    · cases hp
      decide
  · refine (hpairs k).trans ⟨fun hk => ⟨1, by decide, hk⟩, ?_⟩
    rintro ⟨p, hp, rfl⟩
    obtain hp | hp := (hplaces _).mp hp
    · cases hp
    · cases hp
      rfl
  · have hflags : ∀ r ∈ exampleCellRows.keys.rows, r.flag ≠ true := by decide
    exact FlaggedTable.get?_eq_none_iff.mpr fun r hr _ => hflags r hr
  · have hflags : ∀ r ∈ exampleCellRows.psks.rows, r.flag ≠ true := by decide
    exact FlaggedTable.get?_eq_none_iff.mpr fun r hr _ => hflags r hr

/-- Rekeying all keys of the root VPN twice fails: the dropped key of the root is still there. -/
theorem rekeyUvn_twice : exampleStart.Generated ∧ exampleStart.NoBanned ∧
    ∃ t t', Rekeying.step exampleUvnSettings exampleRekeySource ⟨exampleStart, []⟩ .rekeyUvn = .ok t ∧
      t.step exampleUvnSettings exampleRekeySource .reopen = .ok t' ∧
      t'.step exampleUvnSettings exampleRekeySource .rekeyUvn = .error .integrity :=
  ⟨generated_exampleStart, rfl, _, _, rfl, rfl, rfl⟩

/-- Rekeying a cell twice keeps the keys that it had first. -/
theorem rekeyCell_twice : ∃ t, Run.Reaches (Rekeying.step exampleUvnSettings exampleRekeySource)
    (fun t a => a.Ok t) ⟨exampleStart, []⟩ t ∧ (Keymat.loadRekeyed t.keys.rootVpn.rows).keyPair (.peer 1) = some "a" := by
  have hrun : Run.Reaches (Rekeying.step exampleUvnSettings exampleRekeySource) (fun t a => a.Ok t) ⟨exampleStart, []⟩ _ :=
    .step (.rekeyCell 1) (.step .reopen (.step (.rekeyCell 1) .refl ⟨by decide, nofun⟩ rfl) trivial rfl)
      ⟨by decide, nofun⟩ rfl
  exact ⟨_, hrun, ((rekeys_keep exampleUvnSettings generated_exampleStart rfl hrun).2.rekeyed (.peer 1)).trans rfl⟩

end Rekeying

end Uno
