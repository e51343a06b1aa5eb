import Uno.Agent.Flags
import Uno.Registry.Rekey

/-!
# Pushing a rekeyed configuration

The agent of the registry that finds a pending rekeying publishes the configurations of all cells when all cells are
connected, waits until the rekeyed cells are those that are offline, and drops the former keys. `drop_iff` says exactly
when it does so in a run of events.
-/

namespace Uno

/-- `p.cell.id`. -/
def UvnPeer.cellId (p : UvnPeer) : Option ℕ :=
  match p.owner with
  | .cell row => some row.id
  | _ => none

namespace UvnPeersList

variable {agent : Agent} {l : UvnPeersList agent} {u : Update}

def offlineCells (l : UvnPeersList agent) : List UvnPeer := l.cells.filter fun p => p.status.value = .offline

/-- `set(p.cell for p in self.peers.offline_cells)`. -/
def offlineCellIds (l : UvnPeersList agent) : Finset ℕ := (l.offlineCells.filterMap UvnPeer.cellId).toFinset

/-- Whether an update notifies the listeners of ALL_CELLS_CONNECTED. -/
def notifiesAllCellsConnected (l l' : UvnPeersList agent) : Bool :=
  l'.statusAllCellsConnected ≠ l.statusAllCellsConnected && l'.localPeer.any fun p => p.status.value = .online

theorem mem_offlineCellIds {c : ℕ} : c ∈ l.offlineCellIds ↔
    ∃ p ∈ l.cells, p.status.value = .offline ∧ ∃ row, p.owner = .cell row ∧ row.id = c := by
  unfold offlineCellIds offlineCells
  rw [List.mem_toFinset, List.mem_filterMap]
  constructor
  · rintro ⟨p, hp, hid⟩
    obtain ⟨hmem, hoffline⟩ := List.mem_filter.mp hp
    refine ⟨p, hmem, of_decide_eq_true hoffline, ?_⟩
    unfold UvnPeer.cellId at hid
    cases howner : p.owner with
    | registry => rw [howner] at hid; cases hid
    | particle row => rw [howner] at hid; cases hid
    | cell row =>
      rw [howner] at hid
      exact ⟨row, rfl, Option.some.inj hid⟩
  · rintro ⟨p, hp, hoffline, row, howner, rfl⟩
    refine ⟨p, List.mem_filter.mpr ⟨hp, decide_eq_true hoffline⟩, ?_⟩
    unfold UvnPeer.cellId
    rw [howner]

/-! ### The flag of the online cells -/

/-- The flag of the online cells means what it says. -/
def Counts (l : UvnPeersList agent) : Prop := l.statusAllCellsConnected = true ↔ l.AllCellsConnected

theorem allCellsConnected_processUpdates (l : UvnPeersList agent) :
    l.processUpdates.AllCellsConnected ↔ l.AllCellsConnected := by
  have hsave : ∀ m : UvnPeersList agent, m.cells = l.cells → (m.save.AllCellsConnected ↔ l.AllCellsConnected) := by
    intro m hm
    have hcells : m.save.cells = m.cells.map UvnPeer.save := @cells_mapPeers agent m UvnPeer.save UvnPeer.owner_save
    unfold AllCellsConnected
    rw [hcells, List.forall_mem_map, hm]
    exact forall₂_congr fun p _ => by rw [(values_save p).1]
  unfold processUpdates
  split_ifs
  · exact hsave _ rfl
  · exact Iff.rfl

theorem Counts.updateAll (h : l.Counts) (hreset : u.fields.status ≠ .reset)
    (hdeclared : u.fields.status ≠ .set .declared) : (l.updateAll u).Counts := by
  have hflag : (l.configured u).processUpdates.statusAllCellsConnected =
      if (l.configured u).dirty then (l.configured u).allCellsConnected else l.statusAllCellsConnected := by
    unfold processUpdates
    split_ifs <;> rfl
  show (l.configured u).processUpdates.statusAllCellsConnected = true ↔
    (l.configured u).processUpdates.AllCellsConnected
  rw [allCellsConnected_processUpdates, hflag]
  refine recomputed_or_kept ?_ fun hunnoticed => ?_
  · rw [decide_eq_true_eq, length_onlineCells_iff]
  · -- without a noticed change, no cell has another status than before
    refine Iff.trans h ?_
    unfold AllCellsConnected
    rw [forall_cells_configured]
    refine forall₂_congr fun p hp => ?_
    by_cases happlies : u.appliesTo p = true
    · have hvalue : (p.configure u.fields).status.value = p.status.value := by
        refine Tracked.value_configure_of_quiet hreset fun status hstatus => ?_
        by_contra hne
        exact hunnoticed (noticed_status hp happlies hstatus hne fun heq => hdeclared (heq ▸ hstatus))
      rw [apply_of_applies happlies, hvalue]
    · rw [apply_of_not_applies (Bool.not_eq_true _ ▸ happlies)]

/-! ### The peer of the registry -/

/-- The registry is online, and received no information about itself. -/
structure RegistryOnline (l : UvnPeersList agent) : Prop where
  status : l.registry.status.value = .online
  instanceHandle : l.registry.instanceHandle.value = none

theorem owner_registry : l.registry.owner = .registry := by
  have howners := l.owners
  unfold registry
  generalize l.peers_ne_nil = hne
  revert hne howners
  cases l.peers with
  | nil => exact fun _ hne => absurd rfl hne
  | cons p rest =>
    intro howners hne
    rw [List.map_cons, Uvn.peerOwners, List.cons_eq_cons] at howners
    exact howners.1

theorem localPeer_eq (hagent : agent.owner = .registry) : l.localPeer = some l.registry := by
  have howner := @owner_registry agent l
  unfold localPeer registry at *
  revert howner
  generalize l.peers_ne_nil = hne
  revert hne
  cases l.peers with
  | nil => exact fun hne => absurd rfl hne
  | cons p rest =>
    intro hne howner
    exact List.find?_cons_of_pos (decide_eq_true (howner.trans hagent.symm))

theorem registry_updateAll (l : UvnPeersList agent) (u : Update) :
    (l.updateAll u).registry.status.value = (u.apply l.registry).status.value ∧
      (l.updateAll u).registry.instanceHandle.value = (u.apply l.registry).instanceHandle.value := by
  have hsave : ∀ m : UvnPeersList agent, m.registry = u.apply l.registry →
      m.save.registry.status.value = (u.apply l.registry).status.value ∧
        m.save.registry.instanceHandle.value = (u.apply l.registry).instanceHandle.value := by
    intro m hm
    have hregistry : m.save.registry = m.registry.save := @registry_mapPeers agent m UvnPeer.save UvnPeer.owner_save
    rw [hregistry, hm]
    unfold UvnPeer.save
    split_ifs
    · exact ⟨rfl, rfl⟩
    · exact ⟨rfl, rfl⟩
  have hconfigured : (l.configured u).registry = u.apply l.registry := registry_configured
  show (l.configured u).processUpdates.registry.status.value = _ ∧
    (l.configured u).processUpdates.registry.instanceHandle.value = _
  unfold processUpdates
  split_ifs
  · exact hsave _ hconfigured
  · rw [hconfigured]
    exact ⟨rfl, rfl⟩

theorem RegistryOnline.updateAll_other (h : l.RegistryOnline) (hother : u.appliesTo l.registry = false) :
    (l.updateAll u).RegistryOnline := by
  obtain ⟨hstatus, hhandle⟩ := registry_updateAll l u
  rw [apply_of_not_applies hother] at hstatus hhandle
  exact ⟨hstatus.trans h.status, hhandle.trans h.instanceHandle⟩

theorem not_appliesTo_registry {o : PeerOwner} {fields : PeerFields} (hne : o ≠ .registry) :
    Update.appliesTo ⟨some [o], fields⟩ l.registry = false := by
  unfold Update.appliesTo
  rw [owner_registry]
  exact decide_eq_false fun hmem => hne (List.mem_singleton.mp hmem).symm

end UvnPeersList

/-! ### The loop -/

/-- The events of a spinning agent of the registry, which subscribes to the information about cells only. -/
inductive SpinEvent where
  | onRemoteWritersStatus (onlineWriters : List ℕ)
  | onInstanceOffline (handle : ℕ)
  | onReaderDataCellInfo (uvn : String) (cell : ℕ) (registryId : Option String)
      (routedNetworks : Finset LanDescriptor) (knownNetworks : Dict LanDescriptor Bool) (tsStart : Option Timestamp)
      (handle writer : Option ℕ)
  | updatePeerVpnStats (cell : CellRow) (vpnInterfaces : Dict String Bool) (online : Bool)

def SpinEvent.toPeersEvent : SpinEvent → PeersEvent
  | .onRemoteWritersStatus onlineWriters => .onRemoteWritersStatus .cellId onlineWriters
  | .onInstanceOffline handle => .onInstanceOffline .cellId handle
  | .onReaderDataCellInfo uvn cell registryId routedNetworks knownNetworks tsStart handle writer =>
    .onReaderDataCellInfo uvn cell registryId routedNetworks knownNetworks tsStart handle writer
  | .updatePeerVpnStats cell vpnInterfaces online => .updatePeerVpnStats (.cell cell) vpnInterfaces online

/-- The agent of a registry with a pending rekeying. -/
structure Push (agent : Agent) where
  peers : UvnPeersList agent
  /-- `rekeyed_state["stage"]`. -/
  stage : ℕ
  /-- For each call of `_write_agent_configs`, the cells whose configurations were published. -/
  published : List (List ℕ)
  /-- Whether the former keys were dropped, after which the agent is loaded again. -/
  dropped : Bool

inductive PushAct where
  | event (e : SpinEvent)
  /-- The exit condition is tested. -/
  | until

namespace Push

variable {agent : Agent}

/-- An event, and the handler of ALL_CELLS_CONNECTED if it is notified; the agent is in CONNECTED mode. -/
def update (s : Push agent) (e : PeersEvent) : Result (Push agent) := do
  let peers ← s.peers.step e
  .ok { s with
    peers := peers
    published := if s.peers.notifiesAllCellsConnected peers && peers.statusAllCellsConnected then
      s.published ++ [agent.uvn.activeIds] else s.published }

/-- `_until_rekeyed_config_pushed`. -/
def untilRekeyedConfigPushed (rekeyedCells : Finset ℕ) (s : Push agent) : Push agent :=
  let stage := if s.stage = 0 ∧ s.peers.statusAllCellsConnected = true then 1 else s.stage
  if stage = 1 ∧ s.peers.offlineCellIds = rekeyedCells then { s with stage := stage, dropped := true }
  else { s with stage := stage }

def step (rekeyedCells : Finset ℕ) (s : Push agent) : PushAct → Result (Push agent)
  | .event e => s.update e.toPeersEvent
  | .until => .ok (s.untilRekeyedConfigPushed rekeyedCells)

/-- The agent once it started: `_on_started` puts its own peer online. -/
def start (agent : Agent) (rows : PeerOwner → Option PeerRow) (registryId : String) (tsStart : Timestamp) :
    Result (Push agent) :=
  update ⟨.load agent rows, 0, [], false⟩
    (.online { registryId := .set (some registryId), routedNetworks := .set ∅, tsStart := .set (some tsStart) })

/-! ### The events of a spinning agent -/

theorem set_status_ne {status : UvnPeerStatus} (h : status ≠ .declared) :
    Arg.set status ≠ .reset ∧ Arg.set status ≠ .set .declared :=
  ⟨fun heq => absurd heq (by simp), fun heq => h (Arg.set.inj heq)⟩

theorem call_spin {l : UvnPeersList agent} (h : l.RegistryOnline) {e : SpinEvent} {u : Update}
    (hu : l.call e.toPeersEvent = some u) :
    (u.fields.status ≠ .reset ∧ u.fields.status ≠ .set .declared) ∧ u.appliesTo l.registry = false := by
  cases e with
  | onRemoteWritersStatus onlineWriters =>
    obtain ⟨owners, rfl, howners⟩ := UvnPeersList.call_onRemoteWritersStatus hu
    refine ⟨set_status_ne UvnPeerStatus.noConfusion, decide_eq_false fun hmem => ?_⟩
    -- the only peer of the registry is not offline
    obtain ⟨p, hp, howner, hoffline, -⟩ := howners _ hmem
    have hregistry : p.isRegistry = true := decide_eq_true (howner.trans UvnPeersList.owner_registry)
    have hany := UvnPeersList.any_registry (l := l) fun p => p.status.value = .offline
    rw [List.any_eq_true.mpr ⟨p, hp, by rw [hregistry, hoffline]; rfl⟩, h.status] at hany
    cases hany
  | onInstanceOffline handle =>
    obtain ⟨-, p, hp, hhandle, rfl⟩ := UvnPeersList.call_onInstanceOffline hu
    refine ⟨set_status_ne UvnPeerStatus.noConfusion, UvnPeersList.not_appliesTo_registry fun howner => ?_⟩
    have hregistry : p.isRegistry = true := decide_eq_true howner
    have hany := UvnPeersList.any_registry (l := l) fun p => p.instanceHandle.value = some handle
    rw [List.any_eq_true.mpr ⟨p, hp, by rw [hregistry, hhandle, decide_eq_true rfl]; rfl⟩, h.instanceHandle] at hany
    cases hany
  | onReaderDataCellInfo uvn cell registryId routedNetworks knownNetworks tsStart handle writer =>
    obtain ⟨-, c, -, -, rfl⟩ := UvnPeersList.call_onReaderDataCellInfo hu
    exact ⟨set_status_ne UvnPeerStatus.noConfusion, UvnPeersList.not_appliesTo_registry PeerOwner.noConfusion⟩
  | updatePeerVpnStats cell vpnInterfaces online =>
    rw [← Option.some.inj hu]
    refine ⟨⟨fun heq => ?_, fun heq => ?_⟩, UvnPeersList.not_appliesTo_registry PeerOwner.noConfusion⟩
    · cases heq
    · cases heq

/-- An event leaves the stage as it is. -/
theorem stage_update {s s' : Push agent} {e : PeersEvent} (h : s.update e = .ok s') :
    s'.stage = s.stage ∧ s'.dropped = s.dropped := by
  unfold update UvnPeersList.step at h
  cases hcall : s.peers.call e with
  | none =>
    rw [hcall] at h
    rw [← Except.ok.inj h]
    exact ⟨rfl, rfl⟩
  | some u =>
    rw [hcall] at h
    rw [← Except.ok.inj h]
    exact ⟨rfl, rfl⟩

/-- What every state of the loop meets. -/
structure Inv (s : Push agent) : Prop where
  counts : s.peers.Counts
  registry : s.peers.RegistryOnline
  stage : s.stage ≤ 1
  published : s.peers.statusAllCellsConnected = true → agent.uvn.activeIds ∈ s.published

theorem Inv.event {s s' : Push agent} (hagent : agent.owner = .registry) (h : s.Inv) {e : SpinEvent}
    (hstep : s.update e.toPeersEvent = .ok s') : s'.Inv := by
  unfold update UvnPeersList.step at hstep
  cases hcall : s.peers.call e.toPeersEvent with
  | none =>
    rw [hcall] at hstep
    rw [← Except.ok.inj hstep]
    refine ⟨h.counts, h.registry, h.stage, fun hflag => ?_⟩
    have hquiet : s.peers.notifiesAllCellsConnected s.peers = false := by simp [UvnPeersList.notifiesAllCellsConnected]
    show _ ∈ if _ then _ else _
    rw [hquiet, Bool.false_and, if_neg Bool.false_ne_true]
    exact h.published hflag
  | some u =>
    rw [hcall] at hstep
    rw [← Except.ok.inj hstep]
    obtain ⟨⟨hreset, hdeclared⟩, hother⟩ := call_spin h.registry hcall
    have hregistry := h.registry.updateAll_other hother
    refine ⟨h.counts.updateAll hreset hdeclared, hregistry, h.stage, fun hflag => ?_⟩
    have hflag : (s.peers.updateAll u).statusAllCellsConnected = true := hflag
    show _ ∈ if _ then _ else _
    split_ifs with hnotified
    · exact List.mem_append_right _ (.head _)
    · -- the flag was set before
      refine h.published ?_
      by_contra hne
      refine hnotified ?_
      have hlocal : (s.peers.updateAll u).localPeer.any (fun p => p.status.value = .online) = true := by
        rw [UvnPeersList.localPeer_eq hagent]
        exact decide_eq_true hregistry.status
      show (_ && _) = true
      unfold UvnPeersList.notifiesAllCellsConnected
      rw [hlocal, hflag, Bool.and_true, Bool.and_true]
      exact decide_eq_true fun heq => hne heq.symm

theorem untilRekeyedConfigPushed_eq (rekeyedCells : Finset ℕ) (s : Push agent) :
    (s.untilRekeyedConfigPushed rekeyedCells).peers = s.peers ∧
      (s.untilRekeyedConfigPushed rekeyedCells).published = s.published ∧
      (s.untilRekeyedConfigPushed rekeyedCells).stage =
        if s.stage = 0 ∧ s.peers.statusAllCellsConnected = true then 1 else s.stage := by
  unfold untilRekeyedConfigPushed
  dsimp only
  split_ifs <;> exact ⟨rfl, rfl, rfl⟩

theorem Inv.until {s : Push agent} (h : s.Inv) (rekeyedCells : Finset ℕ) :
    (s.untilRekeyedConfigPushed rekeyedCells).Inv := by
  obtain ⟨hpeers, hpublished, hstage⟩ := untilRekeyedConfigPushed_eq rekeyedCells s
  refine ⟨hpeers ▸ h.counts, hpeers ▸ h.registry, ?_, ?_⟩
  · rw [hstage]
    have := h.stage
    split_ifs <;> omega
  · rw [hpeers, hpublished]
    exact h.published

theorem Inv.step {s s' : Push agent} (hagent : agent.owner = .registry) (h : s.Inv) {rekeyedCells : Finset ℕ}
    {a : PushAct} (hstep : s.step rekeyedCells a = .ok s') : s'.Inv := by
  cases a with
  | event e => exact h.event hagent hstep
  | «until» =>
    rw [← Except.ok.inj hstep]
    exact h.until rekeyedCells

theorem counts_load {rows : PeerOwner → Option PeerRow} (hcells : agent.uvn.cells ≠ []) :
    (UvnPeersList.load agent rows).Counts ∧ ¬ (UvnPeersList.load agent rows).AllCellsConnected := by
  have hnot : ¬ (UvnPeersList.load agent rows).AllCellsConnected := by
    intro hall
    obtain ⟨p, hp⟩ : ∃ p, p ∈ (UvnPeersList.load agent rows).cells := by
      apply List.exists_mem_of_length_pos
      rw [UvnPeersList.length_cells]
      exact List.length_pos_iff.mpr hcells
    have hstatus := (UvnPeersList.mem_peers_load (UvnPeersList.mem_peers_of_mem_cells hp)).1
    rw [hall p hp] at hstatus
    cases hstatus
  exact ⟨iff_of_false Bool.false_ne_true hnot, hnot⟩

theorem instanceHandle_load {rows : PeerOwner → Option PeerRow} {p : UvnPeer}
    (hp : p ∈ (UvnPeersList.load agent rows).peers) : p.instanceHandle.value = none := by
  obtain ⟨owner, -, rfl⟩ := List.mem_map.mp hp
  cases rows owner with
  | none => rfl
  | some row => rfl

theorem Inv.start {rows : PeerOwner → Option PeerRow} {registryId : String} {tsStart : Timestamp} {s : Push agent}
    (hagent : agent.owner = .registry) (hcells : agent.uvn.cells ≠ [])
    (hstart : Push.start agent rows registryId tsStart = .ok s) : s.Inv ∧ s.stage = 0 ∧ s.dropped = false := by
  obtain ⟨hcounts, hnot⟩ := @counts_load agent rows hcells
  set u : Update := ⟨some [agent.owner],
    { registryId := .set (some registryId), status := .set .online, routedNetworks := .set ∅,
      tsStart := .set (some tsStart) }⟩ with hu
  have hs : s.peers = (UvnPeersList.load agent rows).updateAll u ∧ s.stage = 0 ∧ s.dropped = false := by
    rw [← Except.ok.inj hstart]
    exact ⟨rfl, rfl, rfl⟩
  have happlies : u.appliesTo (UvnPeersList.load agent rows).registry = true := by
    unfold Update.appliesTo
    rw [UvnPeersList.owner_registry]
    exact decide_eq_true (List.mem_singleton.mpr hagent.symm)
  have hcounts' := hcounts.updateAll (u := u) (fun h => by cases h) (fun h => by cases h)
  have hflag : ((UvnPeersList.load agent rows).updateAll u).statusAllCellsConnected ≠ true := by
    intro hflag
    have hall := hcounts'.mp hflag
    refine hnot fun p hp => ?_
    have hother : u.appliesTo p = false := by
      refine decide_eq_false fun hmem => ?_
      have hregistry := UvnPeersList.not_isRegistry_of_isActiveCell (List.of_mem_filter hp)
      rw [UvnPeer.isRegistry, (List.mem_singleton.mp hmem).trans hagent] at hregistry
      cases hregistry
    have hp' := UvnPeersList.forall_cells_configured.mp
      ((UvnPeersList.allCellsConnected_processUpdates _).mp hall) p hp
    rwa [UvnPeersList.apply_of_not_applies hother] at hp'
  obtain ⟨hstatus, hhandle⟩ := UvnPeersList.registry_updateAll (UvnPeersList.load agent rows) u
  rw [UvnPeersList.apply_of_applies happlies] at hstatus hhandle
  refine ⟨⟨?_, ?_, ?_, ?_⟩, hs.2⟩
  · rw [hs.1]
    exact hcounts'
  · rw [hs.1]
    have hnone := @instanceHandle_load agent rows _ UvnPeersList.registry_mem
    exact ⟨hstatus.trans Tracked.value_set, hhandle.trans hnone⟩
  · omega
  · rw [hs.1]
    exact fun h => absurd h hflag

/-! ### Dropping the former keys -/

/-- The test at which the former keys are dropped is the last one. -/
abbrev Spins (rekeyedCells : Finset ℕ) : Push agent → Push agent → Prop :=
  Run.Reaches (step rekeyedCells) fun s _ => s.dropped = false

/-- A test at which all cells were online, so that their configurations were published. -/
def AllCellsTested (rekeyedCells : Finset ℕ) (s₀ s : Push agent) : Prop :=
  ∃ s₁, Spins rekeyedCells s₀ s₁ ∧ s₁.dropped = false ∧ s₁.peers.AllCellsConnected ∧
    agent.uvn.activeIds ∈ s₁.published ∧ Spins rekeyedCells (s₁.untilRekeyedConfigPushed rekeyedCells) s

variable {rekeyedCells : Finset ℕ} {s₀ s : Push agent}

theorem Inv.spins (hagent : agent.owner = .registry) (h : s₀.Inv) (hrun : Spins rekeyedCells s₀ s) : s.Inv :=
  hrun.invariant h fun _ _ _ hinv _ hstep => hinv.step hagent hstep

theorem stage_until (hstage : s.stage = 1 ∨ s.peers.statusAllCellsConnected = true) (hle : s.stage ≤ 1) :
    (s.untilRekeyedConfigPushed rekeyedCells).stage = 1 := by
  rw [(untilRekeyedConfigPushed_eq rekeyedCells s).2.2]
  rcases hstage with hstage | hflag
  · rw [hstage]
    exact if_neg fun h => absurd h.1 (by decide)
  · split_ifs with h
    · rfl
    · have : s.stage ≠ 0 := fun hzero => h ⟨hzero, hflag⟩
      omega

theorem stage_spins (hrun : Spins rekeyedCells s₀ s) (h : s₀.stage = 1) : s.stage = 1 := by
  refine hrun.invariant (I := fun s => s.stage = 1) h fun s a s' hstage _ hstep => ?_
  cases a with
  | event e => exact (stage_update hstep).1.trans hstage
  | «until» =>
    rw [← Except.ok.inj hstep]
    exact stage_until (.inl hstage) (by omega)

theorem stage_iff (hagent : agent.owner = .registry) (hinv : s₀.Inv) (h : s₀.stage = 0)
    (hrun : Spins rekeyedCells s₀ s) : s.stage = 1 ↔ AllCellsTested rekeyedCells s₀ s := by
  constructor
  · induction hrun with
    | refl => exact fun hstage => absurd (h.symm.trans hstage) (by decide)
    | step a hs hok hstep ih =>
      intro hstage
      cases a with
      | event e =>
        obtain ⟨s₁, hs₁, hdropped, hall, hpublished, hrest⟩ := ih ((stage_update hstep).1.symm.trans hstage)
        exact ⟨s₁, hs₁, hdropped, hall, hpublished, .step (.event e) hrest hok hstep⟩
      | «until» =>
        rename_i t t'
        rw [← Except.ok.inj hstep] at hstage ⊢
        by_cases hone : t.stage = 1
        · obtain ⟨s₁, hs₁, hdropped, hall, hpublished, hrest⟩ := ih hone
          exact ⟨s₁, hs₁, hdropped, hall, hpublished, .step .until hrest hok rfl⟩
        · -- this test is the one that found all cells online
          have hinv := hinv.spins hagent hs
          have hflag : t.peers.statusAllCellsConnected = true := by
            rw [(untilRekeyedConfigPushed_eq rekeyedCells t).2.2] at hstage
            by_contra hflag
            rw [if_neg fun h => hflag h.2] at hstage
            exact hone hstage
          exact ⟨t, hs, hok, hinv.counts.mp hflag, hinv.published hflag, .refl⟩
  · rintro ⟨s₁, hs₁, -, hall, -, hrest⟩
    have hinv := hinv.spins hagent hs₁
    exact stage_spins hrest (stage_until (.inr (hinv.counts.mpr hall)) hinv.stage)

theorem dropped_until (hdropped : s.dropped = false) :
    (s.untilRekeyedConfigPushed rekeyedCells).dropped = true ↔
      (s.untilRekeyedConfigPushed rekeyedCells).stage = 1 ∧ s.peers.offlineCellIds = rekeyedCells := by
  unfold untilRekeyedConfigPushed
  dsimp only
  split_ifs with hzero h h
  · exact iff_of_true rfl h
  · exact iff_of_false (by rw [hdropped]; exact Bool.false_ne_true) h
  · exact iff_of_true rfl h
  · exact iff_of_false (by rw [hdropped]; exact Bool.false_ne_true) h

/-- The cells whose keys changed are some cells, so that not all of them are online when they are offline. -/
theorem not_allCellsConnected (hrekeyed : rekeyedCells.Nonempty) {l : UvnPeersList agent}
    (hoffline : l.offlineCellIds = rekeyedCells) : ¬ l.AllCellsConnected := by
  intro hall
  obtain ⟨c, hc⟩ := hrekeyed
  rw [← hoffline] at hc
  obtain ⟨p, hp, hstatus, -⟩ := UvnPeersList.mem_offlineCellIds.mp hc
  rw [hall p hp] at hstatus
  cases hstatus

/-- In every run of the loop, a test drops the former keys exactly if the cells that are offline are those whose keys
changed and all cells were online at an earlier test, before which the configurations of all cells were published. -/
theorem drop_iff (hagent : agent.owner = .registry) (hcells : agent.uvn.cells ≠ []) (hrekeyed : rekeyedCells.Nonempty)
    {rows : PeerOwner → Option PeerRow} {registryId : String} {tsStart : Timestamp}
    (hstart : start agent rows registryId tsStart = .ok s₀) (hrun : Spins rekeyedCells s₀ s)
    (hdropped : s.dropped = false) :
    (s.untilRekeyedConfigPushed rekeyedCells).dropped = true ↔
      s.peers.offlineCellIds = rekeyedCells ∧ AllCellsTested rekeyedCells s₀ s := by
  obtain ⟨hinv₀, hzero, -⟩ := Inv.start hagent hcells hstart
  have hinv := hinv₀.spins hagent hrun
  rw [dropped_until hdropped, ← stage_iff hagent hinv₀ hzero hrun]
  constructor
  · rintro ⟨hstage, hoffline⟩
    refine ⟨hoffline, ?_⟩
    rw [(untilRekeyedConfigPushed_eq rekeyedCells s).2.2] at hstage
    have hflag : ¬ s.peers.statusAllCellsConnected = true := fun hflag =>
      not_allCellsConnected hrekeyed hoffline (hinv.counts.mp hflag)
    rwa [if_neg fun h => hflag h.2] at hstage
  · rintro ⟨hoffline, hstage⟩
    exact ⟨stage_until (.inl hstage) hinv.stage, hoffline⟩

/-- The agent of the registry of a UVN with a single cell. -/
def registryAgent1 : Agent := { UvnPeersList.agent1 with owner := .registry }

/-- The only cell comes online, receives its configuration, and goes offline once it applies it. -/
theorem drop_iff_example : ∃ s₀ s, start registryAgent1 (fun _ => none) "registry" ⟨0⟩ = .ok s₀ ∧
    Spins {1} s₀ s ∧ s.published = [[1]] ∧ AllCellsTested {1} s₀ s := by
  let s₀ : Push registryAgent1 := ⟨(UvnPeersList.load registryAgent1 fun _ => none).updateAll ⟨some [.registry],
    { registryId := .set (some "registry"), status := .set .online, routedNetworks := .set ∅,
      tsStart := .set (some ⟨0⟩) }⟩, 0, [], false⟩
  have hrun : Spins {1} s₀ s₀ := .refl
  have hrun := hrun.step (.event (.onReaderDataCellInfo "uvn" 1 none ∅ ∅ none (some 7) none)) rfl rfl
  have hrun := hrun.step .until rfl rfl
  have hrun := hrun.step (.event (.onInstanceOffline 7)) rfl rfl
  refine ⟨_, _, rfl, hrun, by decide, ?_⟩
  exact ((drop_iff rfl (by decide) (Finset.singleton_nonempty 1) rfl hrun (by decide)).mp (by decide)).2

end Push

end Uno
