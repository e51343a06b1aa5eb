import Uno.Agent.Meaning

/-!
# The status flags in every run

For every flag, either an update makes a tracked change for which the flag is recomputed, or what the
flag stands for does not change (`updateAll_meaningful`). So the flags are meaningful in every state
of a run whose updates meet `Update.Ok` (`flags_meaningful`).
-/

namespace Uno

namespace UvnPeersList

variable {agent : Agent} {l : UvnPeersList agent}

/-! ### Tracked changes

Below `l` is a list whose flags are meaningful and `u` the update. -/

section update
variable {u : Update} {p : UvnPeer}

theorem apply_of_applies (h : u.appliesTo p = true) : u.apply p = p.configure u.fields := if_pos h

theorem apply_of_not_applies (h : u.appliesTo p = false) : u.apply p = p :=
  if_neg (by rw [h]; exact Bool.false_ne_true)

/-- The list after the update, before the flags are recomputed. -/
def configured (l : UvnPeersList agent) (u : Update) : UvnPeersList agent := l.mapPeers u.apply u.owner_apply

theorem mem_peers_of_mem_cells (hp : p ∈ l.cells) : p ∈ l.peers := List.mem_of_mem_filter hp

theorem mem_configured (hp : p ∈ l.peers) : u.apply p ∈ (l.configured u).peers := List.mem_map_of_mem hp

theorem forall_cells_configured {P : UvnPeer → Prop} :
    (∀ p ∈ (l.configured u).cells, P p) ↔ ∀ p ∈ l.cells, P (u.apply p) := by
  rw [show (l.configured u).cells = l.cells.map u.apply from cells_mapPeers, List.forall_mem_map]

theorem dirty_of_not_saved (hp : p ∈ l.peers) (h : (u.apply p).dirty = true) :
    (l.configured u).dirty = true := by
  unfold dirty
  rw [List.any_eq_true.mpr ⟨_, mem_configured hp, h⟩, Bool.or_true]

theorem dirty_of_changedBy (hp : p ∈ l.peers) (happlies : u.appliesTo p = true)
    (h : p.changedBy u.fields = true) : (l.configured u).dirty = true := by
  refine dirty_of_not_saved hp ?_
  rw [apply_of_applies happlies]
  simp [UvnPeer.dirty, UvnPeer.configure, h]

theorem changed_configure (h : p.changedBy u.fields = true) : (p.configure u.fields).changed = true := by
  simp [UvnPeer.configure, h]

theorem changedBy_of_status (h : p.status.updatedBy u.fields.status = true) :
    p.changedBy u.fields = true := by
  simp [UvnPeer.changedBy, h]

theorem changedBy_of_registryId (h : p.registryId.updatedBy u.fields.registryId = true) :
    p.changedBy u.fields = true := by
  simp [UvnPeer.changedBy, h]

theorem changedBy_of_routedNetworks (h : p.routedNetworks.updatedBy u.fields.routedNetworks = true) :
    p.changedBy u.fields = true := by
  simp [UvnPeer.changedBy, h]

theorem updatedBy_set {α : Type} [DecidableEq α] {t : Tracked α} {arg : Arg α} {v : α} (harg : arg = .set v)
    (hne : t.value ≠ v) : t.updatedBy arg = true := by
  rw [harg]
  exact decide_eq_true hne

theorem statusChangedTo_apply (happlies : u.appliesTo p = true) {s : UvnPeerStatus}
    (hs : u.fields.status = .set s) (hne : p.status.value ≠ s) : (u.apply p).statusChangedTo s = true := by
  have hupdated := updatedBy_set hs hne
  have hvalue : (p.configure u.fields).status.value = s := by
    show (p.status.configure _ u.fields.status).value = s
    rw [hs, Tracked.value_configure_set]
  have hprev : (p.configure u.fields).status.prev = some p.status.value := Tracked.prev_of_updatedBy hupdated
  unfold UvnPeer.statusChangedTo
  rw [apply_of_applies happlies, changed_configure (changedBy_of_status hupdated), hvalue, hprev]
  exact decide_eq_true rfl

theorem recomputed_or_kept {dirty changed recomputed kept : Bool} {P : Prop} (hrecomputed : recomputed = true ↔ P)
    (hkept : ¬ (dirty = true ∧ changed = true) → (kept = true ↔ P)) :
    (if dirty = true then if changed = true then recomputed else kept else kept) = true ↔ P := by
  by_cases hdirty : dirty = true
  · rw [if_pos hdirty]
    by_cases hchanged : changed = true
    · rwa [if_pos hchanged]
    · rw [if_neg hchanged]
      exact hkept fun h => hchanged h.2
  · rw [if_neg hdirty]
    exact hkept fun h => hdirty h.1

/-! ### The flag of the online cells -/

theorem isCell_of_isActiveCell (h : p.isActiveCell = true) : p.isCell = true := by
  unfold UvnPeer.isActiveCell at h
  unfold UvnPeer.isCell
  cases howner : p.owner <;> simp_all

theorem noticed_status (hp : p ∈ l.cells) (happlies : u.appliesTo p = true) {s : UvnPeerStatus}
    (hs : u.fields.status = .set s) (hne : p.status.value ≠ s) (hdeclared : s ≠ .declared) :
    (l.configured u).dirty = true ∧ (l.configured u).cellsChanged = true := by
  have hpeer := mem_peers_of_mem_cells hp
  refine ⟨dirty_of_changedBy hpeer happlies (changedBy_of_status (updatedBy_set hs hne)), ?_⟩
  have hcell : (u.apply p).isCell = true := by
    have := isCell_of_isActiveCell (List.of_mem_filter hp)
    unfold UvnPeer.isCell at this ⊢
    rwa [u.owner_apply]
  have hto := statusChangedTo_apply happlies hs hne
  refine List.any_eq_true.mpr ⟨_, mem_configured hpeer, ?_⟩
  cases s with
  | declared => exact absurd rfl hdeclared
  | online => rw [hcell, hto, Bool.or_true, Bool.and_true]
  | offline => rw [hcell, hto, Bool.true_or, Bool.and_true]

theorem allCellsConnected_configured (h : l.Meaningful) (hok : u.Ok l)
    (hquiet : ∀ p ∈ l.cells, u.appliesTo p = true → ∀ s, u.fields.status = .set s → s ≠ .declared →
      p.status.value = s) :
    l.statusAllCellsConnected = true ↔ (l.configured u).AllCellsConnected := by
  rw [h.allCellsConnected]
  unfold AllCellsConnected
  rw [forall_cells_configured]
  by_cases hdown : u.fields.status = .reset ∨ u.fields.status = .set .declared
  · have hdeclared : ∀ p, u.appliesTo p = true → (u.apply p).status.value = .declared := by
      intro p happlies
      rw [apply_of_applies happlies]
      show (p.status.configure _ u.fields.status).value = _
      rcases hdown with hdown | hdown <;> rw [hdown]
      · rfl
      · rw [Tracked.value_configure_set]
    constructor
    · intro hall p hp
      have hnot : u.appliesTo p = false := Bool.not_eq_true _ ▸ fun happlies =>
        (hok.status hdown).1 (h.allCellsConnected.mpr hall) ⟨p, hp, happlies⟩
      rw [apply_of_not_applies hnot]
      exact hall p hp
    · intro hall p hp
      by_cases happlies : u.appliesTo p = true
      · have := hall p hp
        rw [hdeclared p happlies] at this
        cases this
      · have := hall p hp
        rwa [apply_of_not_applies (Bool.not_eq_true _ ▸ happlies)] at this
  · refine forall₂_congr fun p hp => ?_
    by_cases happlies : u.appliesTo p = true
    · have hvalue : (p.configure u.fields).status.value = p.status.value :=
        Tracked.value_configure_of_quiet (fun hreset => hdown (.inl hreset)) fun s hs =>
          hquiet p hp happlies s hs fun hdeclared => hdown (.inr (hdeclared ▸ hs))
      rw [apply_of_applies happlies, hvalue]
    · rw [apply_of_not_applies (Bool.not_eq_true _ ▸ happlies)]

theorem processUpdates_allCellsConnected (h : l.Meaningful) (hok : u.Ok l) :
    (l.configured u).processUpdates.statusAllCellsConnected = true ↔ (l.configured u).AllCellsConnected := by
  have hflag : (l.configured u).processUpdates.statusAllCellsConnected =
      if (l.configured u).dirty then (l.configured u).allCellsConnected else l.statusAllCellsConnected := by
    unfold processUpdates
    split_ifs <;> rfl
  rw [hflag]
  refine recomputed_or_kept ?_ fun hunnoticed => ?_
  · rw [decide_eq_true_eq, length_onlineCells_iff]
  · refine allCellsConnected_configured h hok fun p hp happlies s hs hdeclared => ?_
    by_contra hne
    exact hunnoticed (noticed_status hp happlies hs hne hdeclared)

/-! ### The flag of the registry -/

theorem registry_configured : (l.configured u).registry = u.apply l.registry := registry_mapPeers

theorem registry_mem : l.registry ∈ l.peers := List.head_mem _

theorem registryConnected_configured (h : l.Meaningful) (hok : u.Ok l)
    (hquiet : u.appliesTo l.registry = true → ∀ s, u.fields.status = .set s → s ≠ .declared →
      l.registry.status.value = s) :
    l.statusRegistryConnected = true ↔ (l.configured u).RegistryConnected := by
  rw [h.registryConnected]
  unfold RegistryConnected
  rw [registry_configured]
  by_cases happlies : u.appliesTo l.registry = true
  · by_cases hdown : u.fields.status = .reset ∨ u.fields.status = .set .declared
    · have hnot : ¬ l.registry.status.value = .online := by
        intro honline
        rw [(hok.status hdown).2 (h.registryConnected.mpr honline)] at happlies
        cases happlies
      refine iff_of_false hnot ?_
      rw [apply_of_applies happlies]
      show ¬ (Tracked.configure _ _ u.fields.status).value = _
      rcases hdown with hdown | hdown <;> rw [hdown]
      · exact UvnPeerStatus.noConfusion
      · rw [Tracked.value_configure_set]
        exact UvnPeerStatus.noConfusion
    · have hvalue : (l.registry.configure u.fields).status.value = l.registry.status.value :=
        Tracked.value_configure_of_quiet (fun hreset => hdown (.inl hreset)) fun s hs =>
          hquiet happlies s hs fun hdeclared => hdown (.inr (hdeclared ▸ hs))
      rw [apply_of_applies happlies, hvalue]
  · rw [apply_of_not_applies (Bool.not_eq_true _ ▸ happlies)]

theorem processUpdates_registryConnected (h : l.Meaningful) (hok : u.Ok l) :
    (l.configured u).processUpdates.statusRegistryConnected = true ↔ (l.configured u).RegistryConnected := by
  have hkept : ¬ ((l.configured u).dirty = true ∧ ∃ s, s ≠ .declared ∧
        (l.configured u).registry.statusChangedTo s = true) →
      (l.statusRegistryConnected = true ↔ (l.configured u).RegistryConnected) := by
    intro hunnoticed
    refine registryConnected_configured h hok fun happlies s hs hdeclared => ?_
    by_contra hne
    refine hunnoticed ⟨dirty_of_changedBy registry_mem happlies
      (changedBy_of_status (updatedBy_set hs hne)), s, hdeclared, ?_⟩
    rw [registry_configured]
    exact statusChangedTo_apply happlies hs hne
  have hvalue : ∀ s, (l.configured u).registry.statusChangedTo s = true →
      (l.configured u).registry.status.value = s := fun s hs =>
    of_decide_eq_true (Bool.and_eq_true_iff.mp hs).2
  unfold processUpdates
  split_ifs with hdirty
  · show (l.configured u).registryConnected = true ↔ _
    unfold registryConnected
    rw [any_registry fun p => p.statusChangedTo .offline, any_registry fun p => p.statusChangedTo .online]
    split_ifs with hoffline honline
    · refine iff_of_false not_false fun hconnected => ?_
      rw [RegistryConnected, hvalue _ hoffline] at hconnected
      cases hconnected
    · exact iff_of_true rfl (hvalue _ honline)
    · refine hkept ?_
      rintro ⟨-, s, hdeclared, hs⟩
      cases s with
      | declared => exact hdeclared rfl
      | online => exact honline hs
      | offline => exact hoffline hs
  · exact hkept fun hnoticed => hdirty hnoticed.1

/-! ### The flag of the routed networks -/

theorem not_isRegistry_of_isActiveCell (h : p.isActiveCell = true) : p.isRegistry = false := by
  unfold UvnPeer.isActiveCell at h
  unfold UvnPeer.isRegistry
  cases howner : p.owner <;> simp_all

theorem noticed_routedNetworks (hp : p ∈ l.cells) (happlies : u.appliesTo p = true)
    {lans : Finset LanDescriptor} (hlans : u.fields.routedNetworks = .set lans)
    (hne : p.routedNetworks.value ≠ lans) :
    (l.configured u).dirty = true ∧ (l.configured u).routedChanged = true := by
  have hpeer := mem_peers_of_mem_cells hp
  have hupdated := updatedBy_set hlans hne
  have hchanged := changedBy_of_routedNetworks hupdated
  refine ⟨dirty_of_changedBy hpeer happlies hchanged, List.any_eq_true.mpr ⟨_, mem_configured hpeer, ?_⟩⟩
  have hregistry : (u.apply p).isRegistry = false := by
    have := not_isRegistry_of_isActiveCell (List.of_mem_filter hp)
    unfold UvnPeer.isRegistry at this ⊢
    rwa [u.owner_apply]
  have hvalue : (p.configure u.fields).routedNetworks.value = lans := by
    show (p.routedNetworks.configure _ u.fields.routedNetworks).value = lans
    rw [hlans, Tracked.value_configure_set]
  have hprev : (p.configure u.fields).routedNetworks.prev = some p.routedNetworks.value :=
    Tracked.prev_of_updatedBy hupdated
  have hdiff : p.routedNetworks.value \ lans ≠ ∅ ∨ lans \ p.routedNetworks.value ≠ ∅ := by
    by_contra hsame
    rw [not_or, not_not, not_not, Finset.sdiff_eq_empty_iff_subset, Finset.sdiff_eq_empty_iff_subset] at hsame
    exact hne (hsame.1.antisymm hsame.2)
  rw [hregistry, apply_of_applies happlies, changed_configure hchanged, hprev, hvalue]
  simpa using hdiff

theorem routesExactly_configured (h : l.Meaningful) (hok : u.Ok l)
    (hquiet : ∀ p ∈ l.cells, u.appliesTo p = true → ∀ lans, u.fields.routedNetworks = .set lans →
      p.routedNetworks.value = lans) :
    l.statusRoutedNetworksDiscovered = true ↔ (l.configured u).RoutesExactly fun _ => True := by
  rw [h.routedNetworksDiscovered]
  have hcells : (l.configured u).cells = l.cells.map u.apply := cells_mapPeers
  by_cases hreset : u.fields.routedNetworks = .reset
  · rw [hok.routedNetworks hreset]
    refine forall_congr' fun n => iff_congr ?_ Iff.rfl
    rw [hcells]
    constructor
    · rintro ⟨p, hp, hnot, hlan⟩
      exact ⟨_, List.mem_map_of_mem hp, trivial, by rwa [apply_of_not_applies hnot]⟩
    · rintro ⟨p', hp', -, lan, hlan, hn⟩
      obtain ⟨p, hp, rfl⟩ := List.mem_map.mp hp'
      by_cases happlies : u.appliesTo p = true
      · rw [apply_of_applies happlies] at hlan
        have hempty : (p.configure u.fields).routedNetworks.value = ∅ := by
          show (p.routedNetworks.configure _ u.fields.routedNetworks).value = _
          rw [hreset]
          rfl
        rw [hempty] at hlan
        exact absurd hlan (Finset.notMem_empty lan)
      · have hnot : u.appliesTo p = false := Bool.not_eq_true _ ▸ happlies
        exact ⟨p, hp, hnot, lan, by rwa [apply_of_not_applies hnot] at hlan, hn⟩
  · have hvalue : ∀ p ∈ l.cells, (u.apply p).routedNetworks.value = p.routedNetworks.value := by
      intro p hp
      by_cases happlies : u.appliesTo p = true
      · rw [apply_of_applies happlies]
        exact Tracked.value_configure_of_quiet hreset (hquiet p hp happlies)
      · rw [apply_of_not_applies (Bool.not_eq_true _ ▸ happlies)]
    refine forall_congr' fun n => iff_congr ?_ Iff.rfl
    rw [hcells]
    constructor
    · rintro ⟨p, hp, -, hlan⟩
      exact ⟨_, List.mem_map_of_mem hp, trivial, by rwa [hvalue p hp]⟩
    · rintro ⟨p', hp', -, hlan⟩
      obtain ⟨p, hp, rfl⟩ := List.mem_map.mp hp'
      exact ⟨p, hp, trivial, by rwa [hvalue p hp] at hlan⟩

theorem processUpdates_routedNetworksDiscovered (h : l.Meaningful) (hok : u.Ok l) :
    (l.configured u).processUpdates.statusRoutedNetworksDiscovered = true ↔
      (l.configured u).RoutesExactly fun _ => True := by
  have hflag : (l.configured u).processUpdates.statusRoutedNetworksDiscovered =
      if (l.configured u).dirty then (l.configured u).routedNetworksDiscovered
      else l.statusRoutedNetworksDiscovered := by
    unfold processUpdates
    split_ifs <;> rfl
  rw [hflag]
  refine recomputed_or_kept ?_ fun hunnoticed => ?_
  · rw [decide_eq_true_eq, routedSubnets_eq_iff]
  · refine routesExactly_configured h hok fun p hp happlies lans hlans => ?_
    by_contra hne
    exact hunnoticed (noticed_routedNetworks hp happlies hlans hne)

/-! ### The flag of the consistent configurations -/

theorem noticed_registryId (hp : p ∈ l.cells) (happlies : u.appliesTo p = true) {id : Option String}
    (hid : u.fields.registryId = .set id)
    (hne : ¬ (p.registryId.value = some agent.configId ↔ id = some agent.configId)) :
    (l.configured u).dirty = true ∧ (l.configured u).consistencyChanged = true := by
  have hpeer := mem_peers_of_mem_cells hp
  have hupdated := updatedBy_set (t := p.registryId) hid fun heq => hne (heq ▸ Iff.rfl)
  have hchanged := changedBy_of_registryId hupdated
  refine ⟨dirty_of_changedBy hpeer happlies hchanged, List.any_eq_true.mpr ⟨_, mem_configured hpeer, ?_⟩⟩
  have hregistry : (u.apply p).isRegistry = false := by
    have := not_isRegistry_of_isActiveCell (List.of_mem_filter hp)
    unfold UvnPeer.isRegistry at this ⊢
    rwa [u.owner_apply]
  have hvalue : (p.configure u.fields).registryId.value = id := by
    show (p.registryId.configure _ u.fields.registryId).value = id
    rw [hid, Tracked.value_configure_set]
  have hprev : (p.configure u.fields).registryId.prev = some p.registryId.value :=
    Tracked.prev_of_updatedBy hupdated
  rw [hregistry, apply_of_applies happlies, changed_configure hchanged, hprev, hvalue]
  simpa [← Bool.eq_iff_iff, decide_eq_decide] using hne

theorem consistentConfigUvn_configured (h : l.Meaningful) (hok : u.Ok l)
    (hquiet : ∀ p ∈ l.cells, u.appliesTo p = true → ∀ id, u.fields.registryId = .set id →
      (p.registryId.value = some agent.configId ↔ id = some agent.configId)) :
    l.statusConsistentConfigUvn = true ↔ (l.configured u).ConsistentConfigUvn := by
  rw [h.consistentConfigUvn]
  unfold UvnPeersList.ConsistentConfigUvn
  rw [forall_cells_configured]
  by_cases hreset : u.fields.registryId = .reset
  · have hnone : ∀ p, u.appliesTo p = true → (u.apply p).registryId.value = none := by
      intro p happlies
      rw [apply_of_applies happlies]
      show (p.registryId.configure _ u.fields.registryId).value = _
      rw [hreset]
      rfl
    constructor
    · intro hall p hp
      have hnot : u.appliesTo p = false := Bool.not_eq_true _ ▸ fun happlies =>
        hok.registryId hreset (h.consistentConfigUvn.mpr hall) ⟨p, hp, happlies⟩
      rw [apply_of_not_applies hnot]
      exact hall p hp
    · intro hall p hp
      have := hall p hp
      by_cases happlies : u.appliesTo p = true
      · rw [hnone p happlies] at this
        cases this
      · rwa [apply_of_not_applies (Bool.not_eq_true _ ▸ happlies)] at this
  · refine forall₂_congr fun p hp => ?_
    by_cases happlies : u.appliesTo p = true
    · rw [apply_of_applies happlies]
      show _ ↔ (p.registryId.configure _ u.fields.registryId).value = _
      cases harg : u.fields.registryId with
      | absent => exact Iff.rfl
      | reset => exact absurd harg hreset
      | set id =>
        rw [Tracked.value_configure_set]
        exact hquiet p hp happlies id harg
    · rw [apply_of_not_applies (Bool.not_eq_true _ ▸ happlies)]

theorem processUpdates_consistentConfigUvn (h : l.Meaningful) (hok : u.Ok l) :
    (l.configured u).processUpdates.statusConsistentConfigUvn = true ↔
      (l.configured u).ConsistentConfigUvn := by
  have hflag : (l.configured u).processUpdates.statusConsistentConfigUvn =
      if (l.configured u).dirty then (l.configured u).consistentConfigUvn
      else l.statusConsistentConfigUvn := by
    unfold processUpdates
    split_ifs <;> rfl
  rw [hflag]
  refine recomputed_or_kept ?_ fun hunnoticed => ?_
  · rw [decide_eq_true_eq, length_consistentConfigCells_iff]
  · refine consistentConfigUvn_configured h hok fun p hp happlies id hid => ?_
    by_contra hne
    exact hunnoticed (noticed_registryId hp happlies hid hne)

/-! ### The flag of the reachable networks -/

theorem noticed_reachable (hchange : u.ChangesReachable l) :
    (l.configured u).dirty = true ∧ (l.configured u).reachableChanged = true := by
  obtain ⟨flags, hflags, p, hp, happlies, e, he, hne⟩ := hchange
  set s := ((p.knownNetworks.find? fun s => s.key = e.1).getD (.new e.1)).setFlag e.2 with hs
  have hmem : s ∈ (u.apply p).knownNetworks := by
    rw [apply_of_applies happlies]
    show s ∈ configureStatuses p.knownNetworks u.fields.knownNetworks
    rw [hflags]
    exact List.mem_map_of_mem (f := fun e : LanDescriptor × Bool =>
      ((p.knownNetworks.find? fun s => s.key = e.1).getD (.new e.1)).setFlag e.2) he
  have hold : ((p.knownNetworks.find? fun s => s.key = e.1).getD (.new e.1)).flag.value = p.reaches e.1 := by
    unfold UvnPeer.reaches
    cases p.knownNetworks.find? fun s => s.key = e.1 <;> rfl
  have hset : s.saved = false ∧ s.flag.prev.isSome = true := by
    rw [hs, PeerStatus.setFlag, if_neg (hold ▸ hne)]
    refine ⟨rfl, ?_⟩
    show (Tracked.set _ e.2).prev.isSome = true
    unfold Tracked.set
    rw [if_neg (hold ▸ hne)]
    rfl
  refine ⟨dirty_of_not_saved hp ?_, ?_⟩
  · unfold UvnPeer.dirty
    rw [Bool.or_eq_true]
    exact .inr (List.any_eq_true.mpr ⟨s, hmem, by rw [hset.1]; rfl⟩)
  · exact List.any_eq_true.mpr ⟨_, mem_configured hp, List.any_eq_true.mpr ⟨s, hmem, hset.2⟩⟩

theorem reaches_configureAll {statuses : List (PeerStatus LanDescriptor)} {flags : Dict LanDescriptor Bool}
    {n : IPv4Network} :
    (∃ s ∈ PeerStatus.configureAll statuses flags, s.flag.value = true ∧ s.key.nic.subnet = n) ↔
      ∃ e ∈ flags.entries, e.2 = true ∧ e.1.nic.subnet = n := by
  rw [exists_status_iff, PeerStatus.map_configureAll]

theorem reaches_of_quiet (hp : p ∈ l.peers) (happlies : u.appliesTo p = true)
    (hquiet : ¬ u.ChangesReachable l) {n : IPv4Network}
    (h : ∃ s ∈ (p.configure u.fields).knownNetworks, s.flag.value = true ∧ s.key.nic.subnet = n) :
    ∃ s ∈ p.knownNetworks, s.flag.value = true ∧ s.key.nic.subnet = n := by
  have hstatuses : (p.configure u.fields).knownNetworks =
      configureStatuses p.knownNetworks u.fields.knownNetworks := rfl
  rw [hstatuses] at h
  cases harg : u.fields.knownNetworks with
  | absent =>
    rw [harg] at h
    exact h
  | reset =>
    rw [harg] at h
    obtain ⟨s, hs, -⟩ := h
    cases hs
  | set flags =>
    rw [harg] at h
    obtain ⟨e, he, hflag, hn⟩ := reaches_configureAll.mp h
    have hreach : p.reaches e.1 = e.2 := by
      by_contra hne
      exact hquiet ⟨flags, harg, p, hp, happlies, e, he, hne⟩
    rw [hflag] at hreach
    unfold UvnPeer.reaches at hreach
    cases hfind : p.knownNetworks.find? fun s => s.key = e.1 with
    | none =>
      rw [hfind] at hreach
      cases hreach
    | some s =>
      rw [hfind] at hreach
      have hkey : s.key = e.1 := by simpa using List.find?_some hfind
      exact ⟨s, List.mem_of_find?_eq_some hfind, hreach, hkey ▸ hn⟩

theorem fullyRoutedUvn_configured (h : l.Meaningful) (hok : u.Ok l) (hquiet : ¬ u.ChangesReachable l) :
    l.statusFullyRoutedUvn = true ↔ (l.configured u).FullyRoutedUvn := by
  rw [h.fullyRoutedUvn]
  unfold UvnPeersList.FullyRoutedUvn
  rw [forall_cells_configured]
  constructor
  · intro hall p hp
    by_cases happlies : u.appliesTo p = true
    · have hcovers := (hok.knownNetworks (h.fullyRoutedUvn.mpr hall) ⟨p, hp, happlies⟩).resolve_right hquiet
      rw [apply_of_applies happlies]
      have hstatuses : (p.configure u.fields).knownNetworks =
          configureStatuses p.knownNetworks u.fields.knownNetworks := rfl
      unfold Update.Covers at hcovers
      rw [hstatuses]
      cases harg : u.fields.knownNetworks with
      | absent => exact hall p hp
      | reset =>
        rw [harg] at hcovers
        exact hcovers.elim
      | set flags =>
        rw [harg] at hcovers
        exact fun c hc n hn => reaches_configureAll.mpr (hcovers c hc n hn)
    · rw [apply_of_not_applies (Bool.not_eq_true _ ▸ happlies)]
      exact hall p hp
  · intro hall p hp c hc n hn
    have hreaches := hall p hp c hc n hn
    by_cases happlies : u.appliesTo p = true
    · rw [apply_of_applies happlies] at hreaches
      exact reaches_of_quiet (mem_peers_of_mem_cells hp) happlies hquiet hreaches
    · rwa [apply_of_not_applies (Bool.not_eq_true _ ▸ happlies)] at hreaches

theorem processUpdates_fullyRoutedUvn (hlan : ∃ c ∈ agent.uvn.cells, c.allowedLans ≠ []) (h : l.Meaningful)
    (hok : u.Ok l) :
    (l.configured u).processUpdates.statusFullyRoutedUvn = true ↔ (l.configured u).FullyRoutedUvn := by
  have hflag : (l.configured u).processUpdates.statusFullyRoutedUvn =
      if (l.configured u).dirty then (l.configured u).fullyRoutedUvn else l.statusFullyRoutedUvn := by
    unfold processUpdates
    split_ifs <;> rfl
  rw [hflag]
  refine recomputed_or_kept ?_ fun hunnoticed => ?_
  · rw [decide_eq_true_eq, length_fullyRoutedCells_iff hlan]
  · exact fullyRoutedUvn_configured h hok fun hchange => hunnoticed (noticed_reachable hchange)

/-! ### Runs -/

/-- An update that meets the condition keeps the flags meaningful. -/
theorem updateAll_meaningful (hlan : ∃ c ∈ agent.uvn.cells, c.allowedLans ≠ []) (h : l.Meaningful)
    (hok : u.Ok l) : (l.updateAll u).Meaningful := by
  -- the flags are compared with the peers before the save
  set m : UvnPeersList agent :=
    { l.configured u with
      statusAllCellsConnected := (l.configured u).processUpdates.statusAllCellsConnected
      statusRegistryConnected := (l.configured u).processUpdates.statusRegistryConnected
      statusRoutedNetworksDiscovered := (l.configured u).processUpdates.statusRoutedNetworksDiscovered
      statusConsistentConfigUvn := (l.configured u).processUpdates.statusConsistentConfigUvn
      statusFullyRoutedUvn := (l.configured u).processUpdates.statusFullyRoutedUvn } with hm
  have hmeaningful : m.Meaningful :=
    ⟨processUpdates_allCellsConnected h hok, processUpdates_registryConnected h hok,
      processUpdates_routedNetworksDiscovered h hok, processUpdates_consistentConfigUvn h hok,
      processUpdates_fullyRoutedUvn hlan h hok⟩
  show (l.configured u).processUpdates.Meaningful
  by_cases hdirty : (l.configured u).dirty = true
  · have hsave : (l.configured u).processUpdates = m.save := by
      rw [hm]
      unfold processUpdates
      rw [if_pos hdirty]
      rfl
    rw [hsave]
    exact hmeaningful.save
  · have hsame : (l.configured u).processUpdates = m := by
      rw [hm]
      unfold processUpdates
      rw [if_neg hdirty]
    rw [hsame]
    exact hmeaningful

theorem mem_peers_load {rows : PeerOwner → Option PeerRow} (hp : p ∈ (load agent rows).peers) :
    p.status.value = .declared ∧ p.registryId.value = none ∧ p.routedNetworks.value = ∅ ∧
      p.knownNetworks = [] := by
  obtain ⟨owner, -, rfl⟩ := List.mem_map.mp hp
  cases rows owner with
  | none => exact ⟨rfl, rfl, rfl, rfl⟩
  | some row => exact ⟨Tracked.value_set, rfl, Tracked.value_set, rfl⟩

theorem load_meaningful (hlan : ∃ c ∈ agent.uvn.cells, c.allowedLans ≠ []) (rows : PeerOwner → Option PeerRow) :
    (load agent rows).Meaningful := by
  obtain ⟨c, hc, hlans⟩ := hlan
  obtain ⟨n, hn⟩ := List.exists_mem_of_ne_nil _ hlans
  obtain ⟨p, hp⟩ : ∃ p, p ∈ (load agent rows).cells := by
    refine List.exists_mem_of_length_pos ?_
    rw [length_cells]
    exact List.length_pos_of_mem hc
  obtain ⟨hstatus, hregistryId, -, hknown⟩ := mem_peers_load (mem_peers_of_mem_cells hp)
  refine ⟨iff_of_false Bool.false_ne_true fun h => ?_, iff_of_false Bool.false_ne_true fun h => ?_,
    iff_of_false Bool.false_ne_true fun h => ?_, iff_of_false Bool.false_ne_true fun h => ?_,
    iff_of_false Bool.false_ne_true fun h => ?_⟩
  · have := h p hp
    rw [hstatus] at this
    cases this
  · rw [RegistryConnected, (mem_peers_load registry_mem).1] at h
    cases h
  · obtain ⟨q, hq, -, lan, hmem, -⟩ := (h n).mpr ⟨c, hc, hn⟩
    rw [(mem_peers_load (mem_peers_of_mem_cells hq)).2.2.1] at hmem
    exact absurd hmem (Finset.notMem_empty lan)
  · have := h p hp
    rw [hregistryId] at this
    cases this
  · obtain ⟨s, hs, -⟩ := h p hp c hc n hn
    rw [hknown] at hs
    cases hs

/-- In every run of events whose updates meet the condition, the flags are meaningful in every state
reached. -/
theorem flags_meaningful (hlan : ∃ c ∈ agent.uvn.cells, c.allowedLans ≠ []) (rows : PeerOwner → Option PeerRow)
    (hrun : Run.Reaches step (fun l e => ∀ u, l.call e = some u → u.Ok l) (load agent rows) l) :
    l.Meaningful := by
  refine hrun.invariant (load_meaningful hlan rows) fun l e l' h hok hstep => ?_
  unfold step at hstep
  split at hstep
  · cases hstep
    exact h
  · cases hstep
    exact updateAll_meaningful hlan h (hok _ ‹_›)

end update

/-- The agent of the only cell of a UVN, which has `10.0.0.0/24`. -/
def agent1 : Agent where
  uvn := ⟨1, none, true, [⟨1, 1, some "a.example",
    [⟨⟨10 * 2 ^ 24, IPv4Network.lt_10⟩, 24, IPv4Network.le_24, IPv4Network.aligned_10_24⟩], false⟩],
    [], 1, 0, by decide, by decide, Uvn.nodup_no_particleIds, Uvn.no_particleIds_le⟩
  uvnName := "uvn"
  configId := "config"
  owner := .cell ⟨1, 1, some "a.example",
    [⟨⟨10 * 2 ^ 24, IPv4Network.lt_10⟩, 24, IPv4Network.le_24, IPv4Network.aligned_10_24⟩], false⟩

theorem flags_meaningful_online : ∃ l, (load agent1 fun _ => none).step
    (.online { registryId := .set (some "config") }) = .ok l ∧ l.statusConsistentConfigUvn = true ∧
      l.Meaningful := by
  refine ⟨_, rfl, by decide, flags_meaningful ⟨_, .head _, by decide⟩ (fun _ => none)
    (.step (.online { registryId := .set (some "config") }) .refl ?_ rfl)⟩
  intro u hu
  cases hu
  refine ⟨fun h => ?_, fun h => ?_, fun h => ?_, fun h => ?_⟩
  · rcases h with h | h <;> cases h
  · cases h
  · cases h
  · cases h

/-- An agent that goes offline resets the configuration id of its peer without noticing. -/
theorem flags_stale : ¬ ∀ (agent : Agent), (∃ c ∈ agent.uvn.cells, c.allowedLans ≠ []) →
    ∀ (rows : PeerOwner → Option PeerRow) (l : UvnPeersList agent),
      Run.Reaches step (fun _ _ => True) (load agent rows) l → l.Meaningful := by
  intro h
  have hrun := h agent1 ⟨_, .head _, by decide⟩ (fun _ => none) _
    (.step .offline (.step (.online { registryId := .set (some "config") }) .refl trivial rfl) trivial rfl)
  have hall := hrun.consistentConfigUvn.mp (by decide)
  exact absurd (hall _ (.head _)) (by decide)

end UvnPeersList

end Uno
