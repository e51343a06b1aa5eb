import Uno.Agent.Peers
import Mathlib.Tactic.Tauto

/-!
# What the status flags mean

`Meaningful` says what each flag of `UvnPeersList` stands for, and `Update.Ok` is the condition under
which an update keeps it. A flag that is recomputed is meaningful, since the list has one peer for
each active cell (`length_filter_cells_iff`), and saving the peers changes none of their values.
-/

namespace Uno

namespace Tracked

variable {α : Type} [DecidableEq α] {t : Tracked α} {initial value : α}

omit [DecidableEq α] in
@[simp] theorem value_clearPrev : t.clearPrev.value = t.value := rfl

@[simp] theorem value_set : (t.set value).value = value := by
  unfold set
  split_ifs with h
  · exact h
  · rfl

theorem value_configure_set : (t.configure initial (.set value)).value = value := value_set

theorem prev_of_updatedBy {arg : Arg α} (h : t.updatedBy arg = true) :
    (t.configure initial arg).prev = some t.value := by
  cases arg with
  | absent => cases h
  | reset => cases h
  | set v => exact congrArg Tracked.prev (if_neg (of_decide_eq_true h))

theorem value_configure_of_quiet {arg : Arg α} (hreset : arg ≠ .reset)
    (hset : ∀ v, arg = .set v → t.value = v) : (t.configure initial arg).value = t.value := by
  cases arg with
  | absent => rfl
  | reset => exact absurd rfl hreset
  | set v => rw [value_configure_set, hset v rfl]

end Tracked

namespace PeerStatus

variable {κ : Type} [DecidableEq κ]

omit [DecidableEq κ] in
theorem setFlag_key {s : PeerStatus κ} {flag : Bool} :
    (s.setFlag flag).key = s.key ∧ (s.setFlag flag).flag.value = flag := by
  unfold setFlag
  split_ifs with h
  · exact ⟨rfl, h⟩
  · exact ⟨rfl, Tracked.value_set⟩

theorem map_configureAll {statuses : List (PeerStatus κ)} {flags : Dict κ Bool} :
    (configureAll statuses flags).map (fun s => (s.key, s.flag.value)) = flags.entries := by
  have hkey : ∀ e : κ × Bool, ((statuses.find? fun s => s.key = e.1).getD (new e.1)).key = e.1 := by
    intro e
    cases hfind : statuses.find? fun s => s.key = e.1 with
    | none => rfl
    | some s => simpa using List.find?_some hfind
  unfold configureAll
  rw [List.map_map]
  refine (List.map_congr_left fun e _ => ?_).trans (List.map_id _)
  rw [Function.comp_apply, setFlag_key.1, setFlag_key.2, hkey]
  rfl

end PeerStatus

namespace UvnPeersList

variable {agent : Agent} (l : UvnPeersList agent)

/-! ### What the flags stand for -/

/-- Every active cell is online. -/
def AllCellsConnected : Prop := ∀ p ∈ l.cells, p.status.value = .online

def RegistryConnected : Prop := l.registry.status.value = .online

/-- The LANs routed by the active cells that satisfy `P` are the allowed LANs of all active cells. -/
def RoutesExactly (P : UvnPeer → Prop) : Prop :=
  ∀ n, (∃ p ∈ l.cells, P p ∧ ∃ lan ∈ p.routedNetworks.value, lan.nic.subnet = n) ↔
    ∃ c ∈ agent.uvn.cells, n ∈ c.allowedLans

/-- Every active cell has the configuration of the agent. -/
def ConsistentConfigUvn : Prop := ∀ p ∈ l.cells, p.registryId.value = some agent.configId

/-- Every allowed LAN of an active cell is reachable from every active cell. -/
def FullyRoutedUvn : Prop :=
  ∀ p ∈ l.cells, ∀ c ∈ agent.uvn.cells, ∀ n ∈ c.allowedLans,
    ∃ s ∈ p.knownNetworks, s.flag.value = true ∧ s.key.nic.subnet = n

structure Meaningful : Prop where
  allCellsConnected : l.statusAllCellsConnected = true ↔ l.AllCellsConnected
  registryConnected : l.statusRegistryConnected = true ↔ l.RegistryConnected
  routedNetworksDiscovered : l.statusRoutedNetworksDiscovered = true ↔ l.RoutesExactly fun _ => True
  consistentConfigUvn : l.statusConsistentConfigUvn = true ↔ l.ConsistentConfigUvn
  fullyRoutedUvn : l.statusFullyRoutedUvn = true ↔ l.FullyRoutedUvn

end UvnPeersList

/-! ### The condition on an update -/

/-- Whether the LAN is reachable according to the statuses of the peer. -/
def UvnPeer.reaches (p : UvnPeer) (lan : LanDescriptor) : Bool :=
  (p.knownNetworks.find? fun s => s.key = lan).elim false fun s => s.flag.value

namespace Update

variable (u : Update)

/-- The update reports all allowed LANs as reachable, if it reports anything. -/
def Covers (agent : Agent) : Prop :=
  match u.fields.knownNetworks with
  | .absent => True
  | .reset => False
  | .set flags => ∀ c ∈ agent.uvn.cells, ∀ n ∈ c.allowedLans,
    ∃ e ∈ flags.entries, e.2 = true ∧ e.1.nic.subnet = n

variable {agent : Agent} (l : UvnPeersList agent)

/-- The update is about an active cell. -/
def TargetsCell : Prop := ∃ p ∈ l.cells, u.appliesTo p = true

/-- The update reports a LAN of a peer as reachable that was not, or the other way around. -/
def ChangesReachable : Prop :=
  ∃ flags, u.fields.knownNetworks = .set flags ∧
    ∃ p ∈ l.peers, u.appliesTo p = true ∧ ∃ e ∈ flags.entries, p.reaches e.1 ≠ e.2

/-- The update does not take a flag away unnoticed. -/
structure Ok : Prop where
  /-- No cell or registry that a raised flag counts as online becomes DECLARED. -/
  status : u.fields.status = .reset ∨ u.fields.status = .set .declared →
    (l.statusAllCellsConnected = true → ¬ u.TargetsCell l) ∧
      (l.statusRegistryConnected = true → u.appliesTo l.registry = false)
  registryId : u.fields.registryId = .reset → l.statusConsistentConfigUvn = true → ¬ u.TargetsCell l
  routedNetworks : u.fields.routedNetworks = .reset →
    ((l.RoutesExactly fun _ => True) ↔ l.RoutesExactly fun p => u.appliesTo p = false)
  knownNetworks : l.statusFullyRoutedUvn = true → u.TargetsCell l → u.Covers agent ∨ u.ChangesReachable l

end Update

variable {agent : Agent}

/-! ### Counting the active cells -/

namespace UvnPeersList

variable {l : UvnPeersList agent}

theorem filter_owners {P : PeerOwner → Bool} (hP : ∀ o, P o = match o with
    | .cell row => ! row.excluded
    | _ => false) : (agent.uvn.peerOwners.filter P).length = agent.uvn.cells.length := by
  have hregistry : P .registry = false := hP _
  have hcells : (agent.uvn.cells.map PeerOwner.cell).filter P = agent.uvn.cells.map .cell := by
    rw [List.filter_eq_self]
    intro o ho
    obtain ⟨c, hc, rfl⟩ := List.mem_map.mp ho
    rw [hP]
    exact Bool.not_eq_true' _ ▸ (Uvn.mem_cells.mp hc).2
  have hexcluded : (agent.uvn.excludedCells.map PeerOwner.cell).filter P = [] := by
    rw [List.filter_eq_nil_iff]
    intro o ho
    obtain ⟨c, hc, rfl⟩ := List.mem_map.mp ho
    have hex : c.excluded = true := by simpa using (List.mem_filter.mp hc).2
    rw [hP]
    simp [hex]
  have hparticles : (agent.uvn.allParticles.map PeerOwner.particle).filter P = [] := by
    rw [List.filter_eq_nil_iff]
    intro o ho
    obtain ⟨p, -, rfl⟩ := List.mem_map.mp ho
    rw [hP]
    exact Bool.false_ne_true
  rw [Uvn.peerOwners, List.filter_cons_of_neg (by rw [hregistry]; exact Bool.false_ne_true), List.filter_append,
    Uvn.allCells, List.map_append, List.filter_append, hcells, hexcluded, hparticles, List.append_nil,
    List.append_nil, List.length_map]

theorem length_cells : l.cells.length = agent.uvn.cells.length := by
  let P : PeerOwner → Bool := fun o => match o with
    | .cell row => ! row.excluded
    | _ => false
  have hP : UvnPeer.isActiveCell = P ∘ UvnPeer.owner := by
    funext p
    unfold UvnPeer.isActiveCell
    dsimp only [Function.comp, P]
    cases p.owner <;> simp
  rw [← filter_owners (P := P) fun _ => rfl, ← l.owners, List.filter_map, List.length_map, cells, hP]

theorem length_filter_cells_iff (P : UvnPeer → Bool) :
    (l.cells.filter P).length = agent.uvn.cells.length ↔ ∀ p ∈ l.cells, P p = true := by
  rw [← l.length_cells, List.length_filter_eq_length_iff]

theorem any_registry (P : UvnPeer → Bool) : (l.peers.any fun p => p.isRegistry && P p) = P l.registry := by
  have howners := l.owners
  have hregistry : l.registry = l.peers.head l.peers_ne_nil := rfl
  rw [hregistry]
  generalize l.peers_ne_nil = hne
  revert hne howners
  cases l.peers with
  | nil => exact fun _ hne => absurd rfl hne
  | cons p rest =>
    intro howners hne
    rw [List.map_cons, Uvn.peerOwners, List.cons_eq_cons] at howners
    have hp : p.isRegistry = true := decide_eq_true howners.1
    have hrest : (rest.any fun q => q.isRegistry && P q) = false := by
      rw [List.any_eq_false]
      intro q hq hreg
      have hq : q.owner ∈ rest.map UvnPeer.owner := List.mem_map_of_mem hq
      have hqr : q.owner = .registry := of_decide_eq_true (Bool.and_eq_true_iff.mp hreg).1
      rw [howners.2, hqr, List.mem_append] at hq
      rcases hq with hq | hq <;> obtain ⟨_, -, h⟩ := List.mem_map.mp hq <;> cases h
    rw [List.any_cons, hp, hrest, Bool.true_and, Bool.or_false]
    rfl

/-! ### Saving -/

section mapPeers
variable {f : UvnPeer → UvnPeer} {hf : ∀ p, (f p).owner = p.owner}

theorem cells_mapPeers : (l.mapPeers f hf).cells = l.cells.map f := by
  have hactive : UvnPeer.isActiveCell ∘ f = UvnPeer.isActiveCell := by
    funext p
    unfold UvnPeer.isActiveCell
    dsimp only [Function.comp]
    rw [hf]
  show (l.peers.map f).filter _ = _
  rw [List.filter_map, hactive]
  rfl

theorem registry_mapPeers : (l.mapPeers f hf).registry = f l.registry := List.head_map ..

theorem mem_cells_mapPeers {p : UvnPeer} :
    p ∈ (l.mapPeers f hf).cells ↔ ∃ q ∈ l.cells, f q = p := by
  rw [cells_mapPeers, List.mem_map]

theorem forall_peers_mapPeers {P : UvnPeer → Prop} :
    (∀ p ∈ (l.mapPeers f hf).peers, P p) ↔ ∀ p ∈ l.peers, P (f p) := List.forall_mem_map

end mapPeers

theorem values_save (p : UvnPeer) : p.save.status.value = p.status.value ∧
    p.save.registryId.value = p.registryId.value ∧
    p.save.routedNetworks.value = p.routedNetworks.value ∧
    p.save.knownNetworks.map (fun s => (s.key, s.flag.value)) =
      p.knownNetworks.map fun s => (s.key, s.flag.value) := by
  unfold UvnPeer.save
  split_ifs
  · exact ⟨rfl, rfl, rfl, by rw [List.map_map]; rfl⟩
  · exact ⟨rfl, rfl, rfl, rfl⟩

theorem forall_peers_updateAll {u : Update} {P : UvnPeer → Prop} (hsave : ∀ p : UvnPeer, P p.save ↔ P p) :
    (∀ p ∈ (l.updateAll u).peers, P p) ↔ ∀ p ∈ l.peers, P (u.apply p) := by
  rw [← @forall_peers_mapPeers _ l u.apply u.owner_apply P]
  unfold updateAll processUpdates
  split_ifs
  · exact List.forall_mem_map.trans (forall₂_congr fun p _ => hsave p)
  · exact Iff.rfl

theorem exists_status_iff {statuses : List (PeerStatus LanDescriptor)} {n : IPv4Network} :
    (∃ s ∈ statuses, s.flag.value = true ∧ s.key.nic.subnet = n) ↔
      ∃ e ∈ statuses.map (fun s => (s.key, s.flag.value)), e.2 = true ∧ e.1.nic.subnet = n := by
  constructor
  · rintro ⟨s, hs, h⟩
    exact ⟨_, List.mem_map_of_mem hs, h⟩
  · rintro ⟨e, he, h⟩
    obtain ⟨s, hs, rfl⟩ := List.mem_map.mp he
    exact ⟨s, hs, h⟩

theorem Meaningful.save (h : l.Meaningful) : l.save.Meaningful := by
  have hcells : ∀ p, p ∈ l.save.cells ↔ ∃ q ∈ l.cells, q.save = p :=
    fun p => @mem_cells_mapPeers agent l UvnPeer.save UvnPeer.owner_save p
  have hall : ∀ P : UvnPeer → Prop, (∀ p ∈ l.save.cells, P p) ↔ ∀ p ∈ l.cells, P p.save := by
    intro P
    constructor
    · exact fun hP p hp => hP _ ((hcells _).mpr ⟨p, hp, rfl⟩)
    · intro hP p hp
      obtain ⟨q, hq, rfl⟩ := (hcells p).mp hp
      exact hP q hq
  have hregistry : l.save.registry = l.registry.save :=
    @registry_mapPeers agent l UvnPeer.save UvnPeer.owner_save
  refine ⟨h.allCellsConnected.trans ?_, h.registryConnected.trans ?_, h.routedNetworksDiscovered.trans ?_,
    h.consistentConfigUvn.trans ?_, h.fullyRoutedUvn.trans ?_⟩
  · rw [AllCellsConnected, AllCellsConnected, hall]
    exact forall₂_congr fun p _ => by rw [(values_save p).1]
  · rw [RegistryConnected, RegistryConnected, hregistry, (values_save _).1]
  · refine forall_congr' fun n => iff_congr ?_ Iff.rfl
    constructor
    · rintro ⟨p, hp, -, lan, hlan, hn⟩
      exact ⟨p.save, (hcells _).mpr ⟨p, hp, rfl⟩, trivial, lan, (values_save p).2.2.1 ▸ hlan, hn⟩
    · rintro ⟨p, hp, -, lan, hlan, hn⟩
      obtain ⟨q, hq, rfl⟩ := (hcells p).mp hp
      exact ⟨q, hq, trivial, lan, (values_save q).2.2.1 ▸ hlan, hn⟩
  · rw [UvnPeersList.ConsistentConfigUvn, UvnPeersList.ConsistentConfigUvn, hall]
    exact forall₂_congr fun p _ => by rw [(values_save p).2.1]
  · rw [UvnPeersList.FullyRoutedUvn, UvnPeersList.FullyRoutedUvn, hall]
    exact forall₂_congr fun p _ => forall₄_congr fun c _ n _ => by
      rw [exists_status_iff, exists_status_iff, (values_save p).2.2.2]

/-! ### Recomputed flags -/

theorem mem_routedSubnets {n : IPv4Network} :
    n ∈ l.routedSubnets ↔ ∃ p ∈ l.cells, ∃ lan ∈ p.routedNetworks.value, lan.nic.subnet = n := by
  unfold routedSubnets
  induction l.cells with
  | nil => simp
  | cons p rest ih =>
    rw [List.map_cons, List.foldr_cons, Finset.mem_union, ih, Finset.mem_image]
    simp only [List.mem_cons, exists_eq_or_imp]

theorem mem_expectedSubnets {n : IPv4Network} :
    n ∈ agent.expectedSubnets ↔ ∃ c ∈ agent.uvn.cells, n ∈ c.allowedLans := by
  rw [Agent.expectedSubnets, List.mem_toFinset, List.mem_flatMap]

theorem routedSubnets_eq_iff : l.routedSubnets = agent.expectedSubnets ↔ l.RoutesExactly fun _ => True := by
  rw [Finset.ext_iff]
  refine forall_congr' fun n => ?_
  rw [mem_routedSubnets, mem_expectedSubnets]
  simp only [true_and]

theorem mem_reachableSubnets {p : UvnPeer} {n : IPv4Network} :
    n ∈ p.reachableSubnets ↔ ∃ s ∈ p.knownNetworks, s.flag.value = true ∧ s.key.nic.subnet = n := by
  unfold UvnPeer.reachableSubnets
  simp only [List.mem_toFinset, List.mem_map, List.mem_filter, and_assoc]

theorem length_onlineCells_iff : l.onlineCells.length = agent.uvn.cells.length ↔ l.AllCellsConnected := by
  unfold onlineCells AllCellsConnected
  rw [length_filter_cells_iff]
  simp only [decide_eq_true_eq]

theorem length_consistentConfigCells_iff :
    l.consistentConfigCells.length = agent.uvn.cells.length ↔ l.ConsistentConfigUvn := by
  unfold consistentConfigCells UvnPeersList.ConsistentConfigUvn
  rw [length_filter_cells_iff]
  simp only [decide_eq_true_eq]

theorem length_fullyRoutedCells_iff (hlan : ∃ c ∈ agent.uvn.cells, c.allowedLans ≠ []) :
    l.fullyRoutedCells.length = agent.uvn.cells.length ↔ l.FullyRoutedUvn := by
  have hne : agent.expectedSubnets ≠ ∅ := by
    obtain ⟨c, hc, hlans⟩ := hlan
    obtain ⟨n, hn⟩ := List.exists_mem_of_ne_nil _ hlans
    exact Finset.ne_empty_of_mem (mem_expectedSubnets.mpr ⟨c, hc, hn⟩)
  unfold fullyRoutedCells UvnPeersList.FullyRoutedUvn
  rw [if_neg hne, length_filter_cells_iff]
  refine forall₂_congr fun p _ => ?_
  rw [decide_eq_true_eq, Finset.inter_eq_left, Finset.subset_iff]
  simp only [mem_expectedSubnets, mem_reachableSubnets, forall_exists_index, and_imp]
  exact ⟨fun h c hc n hn => h c hc hn, fun h n c hc hn => h c hc n hn⟩

end UvnPeersList

end Uno
