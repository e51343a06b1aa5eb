import Uno.Core.Time
import Uno.Registry.Uvn
import Uno.Lib.Run
import Mathlib.Data.Finset.Image

/-!
# The peers of an agent

`UvnPeersList` has one peer for the registry, each cell and each particle of the UVN, and the five
status flags. An update configures some peers and then recomputes the flags for which it finds a
tracked change (`processUpdates`). Resetting a property bypasses the tracking (`Tracked.init`).
-/

namespace Uno

/-! ### Properties with change tracking -/

/-- The value of a property and, once it was changed, the value before the last change. -/
structure Tracked (α : Type) where
  value : α
  prev : Option α

/-- What an update says about a property: nothing (or `None`), `ResetValue`, or a value. -/
inductive Arg (α : Type) where
  | absent
  | reset
  | set (value : α)

namespace Tracked

variable {α : Type}

def new (initial : α) : Tracked α := ⟨initial, none⟩

def set [DecidableEq α] (t : Tracked α) (value : α) : Tracked α :=
  if t.value = value then t else ⟨value, some t.value⟩

/-- `set` of a property whose values have an equality of their own. -/
def setBy (same : α → α → Bool) (t : Tracked α) (value : α) : Tracked α :=
  if same t.value value then t else ⟨value, some t.value⟩

/-- Back to the initial value, without a change being tracked. -/
def init (t : Tracked α) (initial : α) : Tracked α := { t with value := initial }

def clearPrev (t : Tracked α) : Tracked α := { t with prev := none }

def configure [DecidableEq α] (t : Tracked α) (initial : α) : Arg α → Tracked α
  | .absent => t
  | .reset => t.init initial
  | .set value => t.set value

def configureBy (same : α → α → Bool) (t : Tracked α) (initial : α) : Arg α → Tracked α
  | .absent => t
  | .reset => t.init initial
  | .set value => t.setBy same value

/-- Whether `configure` tracks a change. -/
def updatedBy [DecidableEq α] (t : Tracked α) : Arg α → Bool
  | .set value => t.value ≠ value
  | _ => false

def updatedByBy (same : α → α → Bool) (t : Tracked α) : Arg α → Bool
  | .set value => ! same t.value value
  | _ => false

end Tracked

/-- The equality of a property that is a timestamp or `None`. -/
def sameTs : Option Timestamp → Option Timestamp → Bool
  | none, none => true
  | some t, some u => t.sameTime u
  | _, _ => false

/-! ### Statuses a peer owns -/

/-- `LanStatus` and `VpnInterfaceStatus`: a flag about a LAN or an interface. -/
structure PeerStatus (κ : Type) where
  key : κ
  flag : Tracked Bool
  saved : Bool
  prev_eq_none : saved = true → flag.prev = none

namespace PeerStatus

variable {κ : Type} [DecidableEq κ]

/-- `new_child(..., save=False)`. -/
def new (key : κ) : PeerStatus κ := ⟨key, .new false, false, fun h => by cases h⟩

def setFlag (s : PeerStatus κ) (flag : Bool) : PeerStatus κ :=
  if s.flag.value = flag then s else ⟨s.key, s.flag.set flag, false, fun h => by cases h⟩

/-- `db.save` of the status. -/
def save (s : PeerStatus κ) : PeerStatus κ := ⟨s.key, s.flag.clearPrev, true, fun _ => rfl⟩

/-- `configure_known_networks` and `configure_vpn_interfaces`: the statuses of the given keys, those
that are there already being kept. -/
def configureAll (statuses : List (PeerStatus κ)) (flags : Dict κ Bool) : List (PeerStatus κ) :=
  flags.entries.map fun e => ((statuses.find? fun s => s.key = e.1).getD (new e.1)).setFlag e.2

/-- Whether the owner is marked as changed: a new status, a changed one, or one that is gone. -/
def configureAllChanges (statuses : List (PeerStatus κ)) (flags : Dict κ Bool) : Bool :=
  flags.entries.any (fun e => (statuses.find? fun s => s.key = e.1).elim true fun s => s.flag.value ≠ e.2) ||
    statuses.any fun s => s.key ∉ flags.keys

end PeerStatus

/-! ### Peers -/

inductive UvnPeerStatus where
  | declared
  | online
  | offline
  deriving DecidableEq

structure NicDescriptor where
  name : String
  address : IPv4Address
  subnet : IPv4Network
  deriving DecidableEq

structure LanDescriptor where
  nic : NicDescriptor
  gw : IPv4Address
  deriving DecidableEq

inductive PeerOwner where
  | registry
  | cell (row : CellRow)
  | particle (row : ParticleRow)
  deriving DecidableEq

structure UvnPeer where
  owner : PeerOwner
  registryId : Tracked (Option String)
  status : Tracked UvnPeerStatus
  routedNetworks : Tracked (Finset LanDescriptor)
  /-- The handles are numbers. -/
  instanceHandle : Tracked (Option ℕ)
  writer : Tracked (Option ℕ)
  tsStart : Tracked (Option Timestamp)
  vpnInterfaces : List (PeerStatus String)
  knownNetworks : List (PeerStatus LanDescriptor)
  /-- Some property was changed since the last save. -/
  changed : Bool
  /-- `_saved`. -/
  saved : Bool

/-- The keyword arguments of `update_peer`. -/
structure PeerFields where
  registryId : Arg (Option String) := .absent
  status : Arg UvnPeerStatus := .absent
  routedNetworks : Arg (Finset LanDescriptor) := .absent
  instanceHandle : Arg (Option ℕ) := .absent
  writer : Arg (Option ℕ) := .absent
  tsStart : Arg (Option Timestamp) := .absent
  vpnInterfaces : Arg (Dict String Bool) := .absent
  knownNetworks : Arg (Dict LanDescriptor Bool) := .absent

/-- `configure` of the statuses a peer owns; a reset just forgets them. -/
def configureStatuses {κ : Type} [DecidableEq κ] (statuses : List (PeerStatus κ)) :
    Arg (Dict κ Bool) → List (PeerStatus κ)
  | .absent => statuses
  | .reset => []
  | .set flags => PeerStatus.configureAll statuses flags

def statusesChangedBy {κ : Type} [DecidableEq κ] (statuses : List (PeerStatus κ)) :
    Arg (Dict κ Bool) → Bool
  | .set flags => PeerStatus.configureAllChanges statuses flags
  | _ => false

namespace UvnPeer

/-- Whether the agent of an active cell. -/
def isActiveCell (p : UvnPeer) : Bool :=
  match p.owner with
  | .cell row => ¬ row.excluded
  | _ => false

def isCell (p : UvnPeer) : Bool :=
  match p.owner with
  | .cell _ => true
  | _ => false

def isRegistry (p : UvnPeer) : Bool := p.owner = .registry

/-- Whether `configure` marks a property of the peer as changed. -/
def changedBy (p : UvnPeer) (fields : PeerFields) : Bool :=
  p.registryId.updatedBy fields.registryId || p.status.updatedBy fields.status ||
    p.routedNetworks.updatedBy fields.routedNetworks || p.instanceHandle.updatedBy fields.instanceHandle ||
    p.writer.updatedBy fields.writer || p.tsStart.updatedByBy sameTs fields.tsStart ||
    statusesChangedBy p.vpnInterfaces fields.vpnInterfaces ||
    statusesChangedBy p.knownNetworks fields.knownNetworks

def configure (p : UvnPeer) (fields : PeerFields) : UvnPeer where
  owner := p.owner
  registryId := p.registryId.configure none fields.registryId
  status := p.status.configure .declared fields.status
  routedNetworks := p.routedNetworks.configure ∅ fields.routedNetworks
  instanceHandle := p.instanceHandle.configure none fields.instanceHandle
  writer := p.writer.configure none fields.writer
  tsStart := p.tsStart.configureBy sameTs none fields.tsStart
  vpnInterfaces := configureStatuses p.vpnInterfaces fields.vpnInterfaces
  knownNetworks := configureStatuses p.knownNetworks fields.knownNetworks
  changed := p.changed || p.changedBy fields
  saved := p.saved && ! p.changedBy fields

def dirty (p : UvnPeer) : Bool :=
  ! p.saved || p.vpnInterfaces.any (fun s => ! s.saved) || p.knownNetworks.any fun s => ! s.saved

/-- `db.save` of a changed peer and its statuses: the changes are no longer tracked. -/
def save (p : UvnPeer) : UvnPeer :=
  if p.dirty then
    { p with
      registryId := p.registryId.clearPrev, status := p.status.clearPrev
      routedNetworks := p.routedNetworks.clearPrev, instanceHandle := p.instanceHandle.clearPrev
      writer := p.writer.clearPrev, tsStart := p.tsStart.clearPrev
      vpnInterfaces := p.vpnInterfaces.map PeerStatus.save
      knownNetworks := p.knownNetworks.map PeerStatus.save
      changed := false, saved := true }
  else p

theorem owner_save (p : UvnPeer) : p.save.owner = p.owner := by
  unfold save
  split_ifs <;> rfl

/-- Whether the update changed the status of the peer, to `status`. -/
def statusChangedTo (p : UvnPeer) (status : UvnPeerStatus) : Bool :=
  p.changed && p.status.prev.isSome && p.status.value = status

def reachableSubnets (p : UvnPeer) : Finset IPv4Network :=
  ((p.knownNetworks.filter fun s => s.flag.value).map fun s => s.key.nic.subnet).toFinset

/-- A peer that was just saved in the table. -/
def new (owner : PeerOwner) : UvnPeer :=
  ⟨owner, .new none, .new .declared, .new ∅, .new none, .new none, .new none, [], [], false, true⟩

end UvnPeer

/-- The row of a peer that a previous run of the agent left. -/
structure PeerRow where
  registryId : Option String
  status : UvnPeerStatus
  routedNetworks : Finset LanDescriptor
  tsStart : Option Timestamp
  vpnInterfaces : Dict String Bool
  knownNetworks : Dict LanDescriptor Bool

namespace UvnPeer

/-- A status loaded from its table. -/
def loadStatus {κ : Type} [DecidableEq κ] (e : κ × Bool) : PeerStatus κ :=
  ⟨e.1, .new e.2, true, fun _ => rfl⟩

/-- A peer loaded from its table, whose properties are reset. -/
def loaded (owner : PeerOwner) (row : PeerRow) : UvnPeer :=
  let p : UvnPeer :=
    { new owner with
      registryId := (Tracked.new none).set row.registryId
      status := (Tracked.new .declared).set row.status
      routedNetworks := (Tracked.new ∅).set row.routedNetworks
      tsStart := (Tracked.new none).setBy sameTs row.tsStart
      vpnInterfaces := row.vpnInterfaces.entries.map loadStatus
      knownNetworks := row.knownNetworks.entries.map loadStatus
      changed := row.vpnInterfaces.entries ≠ [] || row.knownNetworks.entries ≠ [] }
  p.configure
    { status := .set .declared, registryId := .reset, routedNetworks := .set ∅, knownNetworks := .set ∅,
      vpnInterfaces := .set ∅, instanceHandle := .reset, writer := .reset, tsStart := .reset }

end UvnPeer

/-! ### The list of peers -/

/-- The agent, as far as the list of its peers needs it. -/
structure Agent where
  uvn : Uvn
  uvnName : String
  configId : String
  owner : PeerOwner

namespace Uvn

/-- The objects that have a peer. -/
def peerOwners (u : Uvn) : List PeerOwner :=
  .registry :: (u.allCells.map .cell ++ u.allParticles.map .particle)

end Uvn

structure UvnPeersList (agent : Agent) where
  peers : List UvnPeer
  owners : peers.map UvnPeer.owner = agent.uvn.peerOwners
  statusAllCellsConnected : Bool
  statusConsistentConfigUvn : Bool
  statusRoutedNetworksDiscovered : Bool
  statusFullyRoutedUvn : Bool
  statusRegistryConnected : Bool
  saved : Bool

/-- `set(lan for c in uvn.cells.values() for lan in c.allowed_lans)`. -/
def Agent.expectedSubnets (agent : Agent) : Finset IPv4Network :=
  (agent.uvn.cells.flatMap CellRow.allowedLans).toFinset

/-- An update of some peers, of all without `targets`. -/
structure Update where
  targets : Option (List PeerOwner)
  fields : PeerFields

def Update.appliesTo (u : Update) (p : UvnPeer) : Bool :=
  match u.targets with
  | none => true
  | some targets => p.owner ∈ targets

def Update.apply (u : Update) (p : UvnPeer) : UvnPeer := if u.appliesTo p then p.configure u.fields else p

theorem Update.owner_apply (u : Update) (p : UvnPeer) : (u.apply p).owner = p.owner := by
  unfold Update.apply
  split_ifs <;> rfl

namespace UvnPeersList

variable {agent : Agent}

/-- The list of a starting agent; `rows` are the peers it finds in its database. -/
def load (agent : Agent) (rows : PeerOwner → Option PeerRow) : UvnPeersList agent where
  peers := agent.uvn.peerOwners.map fun owner =>
    match rows owner with
    | none => UvnPeer.new owner
    | some row => UvnPeer.loaded owner row
  owners := by
    rw [List.map_map]
    refine (List.map_congr_left fun owner _ => ?_).trans (List.map_id _)
    dsimp only [Function.comp]
    split <;> rfl
  statusAllCellsConnected := false
  statusConsistentConfigUvn := false
  statusRoutedNetworksDiscovered := false
  statusFullyRoutedUvn := false
  statusRegistryConnected := false
  saved := false

variable (l : UvnPeersList agent)

theorem peers_ne_nil : l.peers ≠ [] := by
  intro h
  have howners := l.owners
  rw [h] at howners
  cases howners

def registry : UvnPeer := l.peers.head l.peers_ne_nil

def cells : List UvnPeer := l.peers.filter UvnPeer.isActiveCell

def onlineCells : List UvnPeer := l.cells.filter fun p => p.status.value = .online

def consistentConfigCells : List UvnPeer := l.cells.filter fun p => p.registryId.value = some agent.configId

def fullyRoutedCells : List UvnPeer :=
  if agent.expectedSubnets = ∅ then []
  else l.cells.filter fun p => agent.expectedSubnets ∩ p.reachableSubnets = agent.expectedSubnets

def routedSubnets : Finset IPv4Network :=
  (l.cells.map fun p => p.routedNetworks.value.image fun lan => lan.nic.subnet).foldr (· ∪ ·) ∅

/-! ### Recomputing the flags -/

/-- Some cell went online or offline. -/
def cellsChanged : Bool :=
  l.peers.any fun p => p.isCell && (p.statusChangedTo .offline || p.statusChangedTo .online)

def allCellsConnected : Bool :=
  if l.cellsChanged then l.onlineCells.length = agent.uvn.cells.length else l.statusAllCellsConnected

def registryConnected : Bool :=
  if l.peers.any fun p => p.isRegistry && p.statusChangedTo .offline then false
  else if l.peers.any fun p => p.isRegistry && p.statusChangedTo .online then true
  else l.statusRegistryConnected

/-- Some pair of a peer and a LAN it routes is gone or new. -/
def routedChanged : Bool :=
  l.peers.any fun p => ! p.isRegistry && p.changed && match p.routedNetworks.prev with
    | none => false
    | some prev => prev \ p.routedNetworks.value ≠ ∅ || p.routedNetworks.value \ prev ≠ ∅

def routedNetworksDiscovered : Bool :=
  if l.routedChanged then l.routedSubnets = agent.expectedSubnets else l.statusRoutedNetworksDiscovered

/-- Some peer became consistent, or ceased to be. -/
def consistencyChanged : Bool :=
  l.peers.any fun p => ! p.isRegistry && p.changed && match p.registryId.prev with
    | none => false
    | some prev => decide (prev = some agent.configId) ≠ decide (p.registryId.value = some agent.configId)

def consistentConfigUvn : Bool :=
  if l.consistencyChanged then l.consistentConfigCells.length = agent.uvn.cells.length
  else l.statusConsistentConfigUvn

/-- The reachability of some network changed. -/
def reachableChanged : Bool := l.peers.any fun p => p.knownNetworks.any fun s => s.flag.prev.isSome

def fullyRoutedUvn : Bool :=
  if l.reachableChanged then l.fullyRoutedCells.length = agent.uvn.cells.length
  else l.statusFullyRoutedUvn

def dirty : Bool := ! l.saved || l.peers.any UvnPeer.dirty

theorem map_owner_eq {f : UvnPeer → UvnPeer} (hf : ∀ p, (f p).owner = p.owner) :
    (l.peers.map f).map UvnPeer.owner = agent.uvn.peerOwners := by
  rw [List.map_map, ← l.owners]
  exact List.map_congr_left fun p _ => hf p

/-- Change the peers, not their owners. -/
def mapPeers (f : UvnPeer → UvnPeer) (hf : ∀ p, (f p).owner = p.owner) : UvnPeersList agent :=
  { l with peers := l.peers.map f, owners := l.map_owner_eq hf }

/-- `db.save` of the list. -/
def save : UvnPeersList agent :=
  { l.mapPeers UvnPeer.save UvnPeer.owner_save with saved := true }

/-- `_process_updates`, without the notifications. -/
def processUpdates : UvnPeersList agent :=
  if l.dirty then
    { l with
      statusAllCellsConnected := l.allCellsConnected
      statusRegistryConnected := l.registryConnected
      statusRoutedNetworksDiscovered := l.routedNetworksDiscovered
      statusConsistentConfigUvn := l.consistentConfigUvn
      statusFullyRoutedUvn := l.fullyRoutedUvn }.save
  else l

/-- Configuring a peer twice with the same fields is the same as once. -/
def updateAll (u : Update) : UvnPeersList agent := (l.mapPeers u.apply u.owner_apply).processUpdates

/-- The peer of the agent's own cell or registry. -/
def localPeer : Option UvnPeer := l.peers.find? fun p => p.owner = agent.owner

end UvnPeersList

/-! ### Events -/

inductive UvnTopic where
  | cellId
  | uvnId
  | backbone
  deriving DecidableEq

/-- What updates the peers. -/
inductive PeersEvent where
  | updateAll (u : Update)
  | online (fields : PeerFields)
  | offline
  | onRemoteWritersStatus (topic : UvnTopic) (onlineWriters : List ℕ)
  | onInstanceOffline (topic : UvnTopic) (handle : ℕ)
  | onReaderDataCellInfo (uvn : String) (cell : ℕ) (registryId : Option String)
      (routedNetworks : Finset LanDescriptor) (knownNetworks : Dict LanDescriptor Bool) (tsStart : Option Timestamp)
      (handle writer : Option ℕ)
  | onReaderDataUvnInfo (uvn : String) (registryId : Option String) (handle writer : Option ℕ)
  /-- One peer of `_update_peer_vpn_stats`, with the state of its interfaces and of the first of them. -/
  | updatePeerVpnStats (peer : PeerOwner) (vpnInterfaces : Dict String Bool) (online : Bool)
  /-- The result of the peers tester. -/
  | peersTested (knownNetworks : Dict LanDescriptor Bool)

/-- A value that may be `None`. -/
def Arg.ofOption {α : Type} : Option α → Arg (Option α)
  | none => .absent
  | some value => .set (some value)

namespace UvnPeersList

variable {agent : Agent} (l : UvnPeersList agent)

def updatePeer (owner : PeerOwner) (fields : PeerFields) : Option Update := some ⟨some [owner], fields⟩

/-- The call of `update_all` an event leads to, if any. -/
def call : PeersEvent → Option Update
  | .updateAll u => some u
  | .online fields => updatePeer agent.owner { fields with status := .set .online }
  | .offline =>
    if l.localPeer.any fun p => p.status.value = .offline then none
    else some ⟨none,
      { status := .set .offline, registryId := .reset, routedNetworks := .set ∅, knownNetworks := .set ∅,
        vpnInterfaces := .set ∅, instanceHandle := .reset, writer := .reset, tsStart := .reset }⟩
  | .onRemoteWritersStatus topic onlineWriters =>
    let matched := l.peers.filter fun p =>
      (topic = .cellId || topic = .uvnId && p.isRegistry) && p.writer.value.any fun w => w ∈ onlineWriters
    let offlinePeers := matched.filter fun p => p.status.value = .offline
    if offlinePeers = [] then none
    else some ⟨some (offlinePeers.map UvnPeer.owner), { status := .set .online }⟩
  | .onInstanceOffline topic handle =>
    if topic = .cellId ∨ topic = .uvnId then
      match l.peers.find? fun p => p.instanceHandle.value = some handle with
      | none => none
      | some p => updatePeer p.owner { status := .set .offline }
    else none
  | .onReaderDataCellInfo uvn cell registryId routedNetworks knownNetworks tsStart handle writer =>
    if uvn ≠ agent.uvnName then none
    else match agent.uvn.cells.find? fun c => c.id = cell with
      | none => none
      | some c => updatePeer (.cell c)
        { registryId := .ofOption registryId, status := .set .online, routedNetworks := .set routedNetworks,
          knownNetworks := .set knownNetworks, instanceHandle := .ofOption handle, writer := .ofOption writer,
          tsStart := .ofOption tsStart }
  | .onReaderDataUvnInfo uvn registryId handle writer =>
    if uvn ≠ agent.uvnName then none
    else updatePeer .registry
      { registryId := .ofOption registryId, status := .set .online, instanceHandle := .ofOption handle,
        writer := .ofOption writer }
  | .updatePeerVpnStats peer vpnInterfaces online =>
    updatePeer peer
      { vpnInterfaces := .set vpnInterfaces
        status := match peer, l.peers.find? fun p => p.owner = peer with
          | .particle _, some p =>
            if online then .set .online else if p.status.value = .offline then .set .offline else .absent
          | _, _ => .absent }
  | .peersTested knownNetworks => updatePeer agent.owner { knownNetworks := .set knownNetworks }

def step (e : PeersEvent) : Result (UvnPeersList agent) :=
  match l.call e with
  | none => .ok l
  | some u => .ok (l.updateAll u)

variable {l} {u : Update}

theorem call_onRemoteWritersStatus {topic : UvnTopic} {onlineWriters : List ℕ}
    (h : l.call (.onRemoteWritersStatus topic onlineWriters) = some u) :
    ∃ owners, u = ⟨some owners, { status := .set .online }⟩ ∧ ∀ owner ∈ owners, ∃ p ∈ l.peers, p.owner = owner ∧
      p.status.value = .offline ∧ topic ≠ .backbone ∧ ∃ w ∈ onlineWriters, p.writer.value = some w := by
  simp only [call, Option.ite_none_left_eq_some] at h
  refine ⟨_, (Option.some.inj h.2).symm, fun owner howner => ?_⟩
  obtain ⟨p, hp, hpowner⟩ := List.mem_map.mp howner
  obtain ⟨hmatched, hoffline⟩ := List.mem_filter.mp hp
  obtain ⟨hp, hmatch⟩ := List.mem_filter.mp hmatched
  obtain ⟨htopic, hwriter⟩ := Bool.and_eq_true_iff.mp hmatch
  cases hw : p.writer.value with
  | none => simp [hw] at hwriter
  | some w =>
    refine ⟨p, hp, hpowner, of_decide_eq_true hoffline, ?_, w, by simpa [hw] using hwriter, hw⟩
    rintro rfl
    simp at htopic

theorem call_onInstanceOffline {topic : UvnTopic} {handle : ℕ} (h : l.call (.onInstanceOffline topic handle) = some u) :
    topic ≠ .backbone ∧ ∃ p ∈ l.peers, p.instanceHandle.value = some handle ∧
      u = ⟨some [p.owner], { status := .set .offline }⟩ := by
  simp only [call] at h
  split_ifs at h with htopic
  cases hfind : l.peers.find? fun p => p.instanceHandle.value = some handle with
  | none =>
    rw [hfind] at h
    cases h
  | some p =>
    rw [hfind] at h
    refine ⟨?_, p, List.mem_of_find?_eq_some hfind, by simpa using List.find?_some hfind, (Option.some.inj h).symm⟩
    rintro rfl
    simp at htopic

theorem call_onReaderDataCellInfo {uvn : String} {cell : ℕ} {registryId : Option String}
    {routedNetworks : Finset LanDescriptor} {knownNetworks : Dict LanDescriptor Bool} {tsStart : Option Timestamp}
    {handle writer : Option ℕ} (h : l.call (.onReaderDataCellInfo uvn cell registryId routedNetworks knownNetworks
      tsStart handle writer) = some u) :
    uvn = agent.uvnName ∧ ∃ c ∈ agent.uvn.cells, c.id = cell ∧ u = ⟨some [.cell c],
      { registryId := .ofOption registryId, status := .set .online, routedNetworks := .set routedNetworks,
        knownNetworks := .set knownNetworks, instanceHandle := .ofOption handle, writer := .ofOption writer,
        tsStart := .ofOption tsStart }⟩ := by
  simp only [call, Option.ite_none_left_eq_some] at h
  obtain ⟨huvn, h⟩ := h
  cases hfind : agent.uvn.cells.find? fun c => c.id = cell with
  | none =>
    rw [hfind] at h
    cases h
  | some c =>
    rw [hfind] at h
    exact ⟨not_not.mp huvn, c, List.mem_of_find?_eq_some hfind, by simpa using List.find?_some hfind,
      (Option.some.inj h).symm⟩

theorem call_onReaderDataUvnInfo {uvn : String} {registryId : Option String} {handle writer : Option ℕ}
    (h : l.call (.onReaderDataUvnInfo uvn registryId handle writer) = some u) :
    uvn = agent.uvnName ∧ u = ⟨some [.registry],
      { registryId := .ofOption registryId, status := .set .online, instanceHandle := .ofOption handle,
        writer := .ofOption writer }⟩ := by
  simp only [call, Option.ite_none_left_eq_some] at h
  exact ⟨not_not.mp h.1, (Option.some.inj h.2).symm⟩

end UvnPeersList

end Uno
