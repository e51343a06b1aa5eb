import Uno.Agent.Flags
import Uno.Lib.Bytes

/-!
# The cell status message

`cellAgentStatus` writes the status of a cell into the fields of a sample, `parseData` reads them on the
receiving side, and the event handler configures the cell's peer with what was read. The reader gets back
what the writer was given. The peer records it, except for a start time at the same time of day as the one
it has, which counts as unchanged (`statusMessage_iff`).
-/

namespace Uno

/-! ### Addresses -/

def ipv4ToBytes (ip : IPv4Address) : List UInt8 := Bytes.toBytes 4 ip.toNat

def ipv4FromBytes (bytes : List UInt8) : Result IPv4Address := IPv4Address.ofNat (Bytes.ofBytes bytes)

namespace IPv4Network

/-- `ip_network(f"{address}/{mask}")`. -/
def parse (address : IPv4Address) (mask : ℕ) : Result IPv4Network :=
  if h : mask ≤ 32 then ofAddress address mask h
  else .error (.value "does not appear to be an IPv4 or IPv6 network")

end IPv4Network

/-! ### The sample -/

/-- `uno::NetworkInfo`. -/
structure NetworkInfo where
  nic : String
  subnetAddress : List UInt8
  subnetMask : ℕ
  endpoint : List UInt8
  gw : List UInt8

/-- `uno::CellInfo`, as far as it is written. -/
structure CellInfo where
  idN : ℕ
  idUvn : String
  registryId : String
  routedNetworks : List NetworkInfo
  reachableNetworks : List NetworkInfo
  unreachableNetworks : List NetworkInfo
  tsStart : ℕ

/-- The status of a cell, as its agent publishes it. -/
structure CellStatus where
  uvn : String
  cell : ℕ
  registryId : String
  tsStart : Timestamp
  lans : List LanDescriptor
  knownNetworks : Dict LanDescriptor Bool

def lanDescriptor (net : LanDescriptor) : Result NetworkInfo := do
  let mask ← ipv4NetmaskToCidr net.nic.subnet.netmask
  return {
    nic := net.nic.name
    subnetAddress := ipv4ToBytes net.nic.subnet.networkAddress
    subnetMask := mask
    endpoint := ipv4ToBytes net.nic.address
    gw := ipv4ToBytes net.gw }

namespace CellStatus

/-- The known networks that are, or are not, reachable. -/
def networks (s : CellStatus) (reachable : Bool) : List LanDescriptor :=
  (s.knownNetworks.entries.filter fun e => e.2 = reachable).map Prod.fst

end CellStatus

def cellAgentStatus (s : CellStatus) : Result CellInfo := do
  let routed ← s.lans.mapM lanDescriptor
  let reachable ← (s.networks true).mapM lanDescriptor
  let unreachable ← (s.networks false).mapM lanDescriptor
  return {
    idN := s.cell
    idUvn := s.uvn
    registryId := s.registryId
    routedNetworks := routed
    reachableNetworks := reachable
    unreachableNetworks := unreachable
    tsStart := s.tsStart.fromEpoch }

/-! ### The received data -/

/-- What `_parse_data` returns for a cell. -/
structure CellData where
  uvn : String
  cell : ℕ
  registryId : String
  routedNetworks : List LanDescriptor
  knownNetworks : Dict LanDescriptor Bool
  tsStart : ℕ

/-- `_site_to_descriptor`, and the descriptor that `new_child` makes of its result. -/
def siteToDescriptor (site : NetworkInfo) : Result LanDescriptor := do
  let address ← ipv4FromBytes site.subnetAddress
  let subnet ← IPv4Network.parse address site.subnetMask
  let endpoint ← ipv4FromBytes site.endpoint
  let gw ← ipv4FromBytes site.gw
  return ⟨⟨site.nic, endpoint, subnet⟩, gw⟩

/-- `_parse_data`, for the topic of the cells. -/
def parseData (data : CellInfo) : Result CellData := do
  let routed ← data.routedNetworks.mapM siteToDescriptor
  let unreachable ← data.unreachableNetworks.mapM siteToDescriptor
  let reachable ← data.reachableNetworks.mapM siteToDescriptor
  let known := unreachable.map (·, false) ++ reachable.map (·, true)
  return {
    uvn := data.idUvn
    cell := data.idN
    registryId := data.registryId
    routedNetworks := routed
    knownNetworks := known.foldl (fun d e => d.set e.1 e.2) ∅
    tsStart := data.tsStart }

/-- The event by which an agent takes the data, with the properties as they are prepared. -/
def CellData.event (data : CellData) (handle writer : Option ℕ) : PeersEvent :=
  .onReaderDataCellInfo data.uvn data.cell (some data.registryId) data.routedNetworks.toFinset data.knownNetworks
    (some (.parse data.tsStart)) handle writer

/-! ### Reading back what was written -/

theorem ipv4FromBytes_ipv4ToBytes (ip : IPv4Address) : ipv4FromBytes (ipv4ToBytes ip) = .ok ip := by
  have hlt : ip.toNat < 256 ^ 4 := ip.lt
  rw [ipv4FromBytes, ipv4ToBytes, Bytes.ofBytes_toBytes hlt, IPv4Address.ofNat_eq_ok ip.lt]

theorem IPv4Network.parse_prefixlen (n : IPv4Network) : parse n.networkAddress n.prefixlen = .ok n := by
  rw [parse, dif_pos n.le, ofAddress, dif_pos n.aligned]

/-- The LAN has a mask with a one. -/
def LanDescriptor.Sendable (lan : LanDescriptor) : Prop := 1 ≤ lan.nic.subnet.prefixlen

/-- What is sent of a LAN. -/
def LanDescriptor.site (lan : LanDescriptor) : NetworkInfo where
  nic := lan.nic.name
  subnetAddress := ipv4ToBytes lan.nic.subnet.networkAddress
  subnetMask := lan.nic.subnet.prefixlen
  endpoint := ipv4ToBytes lan.nic.address
  gw := ipv4ToBytes lan.gw

theorem lanDescriptor_eq_ok {lan : LanDescriptor} (h : lan.Sendable) : lanDescriptor lan = .ok lan.site := by
  rw [lanDescriptor, ipv4NetmaskToCidr_netmask, if_neg (Nat.one_le_iff_ne_zero.mp h)]
  rfl

theorem siteToDescriptor_site (lan : LanDescriptor) : siteToDescriptor lan.site = .ok lan := by
  simp only [siteToDescriptor, LanDescriptor.site, ipv4FromBytes_ipv4ToBytes, IPv4Network.parse_prefixlen,
    Except.ok_bind]
  rfl

theorem mapM_siteToDescriptor (lans : List LanDescriptor) :
    (lans.map LanDescriptor.site).mapM siteToDescriptor = .ok lans := by
  rw [List.mapM_map]
  exact (Fold.mapM_eq_ok fun lan _ => siteToDescriptor_site lan).trans (congrArg _ (List.map_id lans))

namespace CellStatus

variable {s : CellStatus}

/-- Every LAN of the status is sendable. -/
def Publishable (s : CellStatus) : Prop :=
  (∀ lan ∈ s.lans, lan.Sendable) ∧ ∀ lan ∈ s.knownNetworks.keys, lan.Sendable

theorem mem_networks {reachable : Bool} {lan : LanDescriptor} :
    lan ∈ s.networks reachable ↔ s.knownNetworks.get? lan = some reachable := by
  rw [Dict.get?_eq_some_iff]
  simp [networks]

theorem mapM_networks (h : s.Publishable) (reachable : Bool) :
    (s.networks reachable).mapM lanDescriptor = .ok ((s.networks reachable).map LanDescriptor.site) :=
  Fold.mapM_eq_ok fun _ hlan => lanDescriptor_eq_ok (h.2 _ (Dict.mem_keys_iff.mpr ⟨_, mem_networks.mp hlan⟩))

/-- The known networks, as they are received. -/
def known (s : CellStatus) : List (LanDescriptor × Bool) :=
  (s.networks false).map (·, false) ++ (s.networks true).map (·, true)

theorem mem_known {e : LanDescriptor × Bool} : e ∈ s.known ↔ e ∈ s.knownNetworks.entries := by
  obtain ⟨lan, reachable⟩ := e
  rw [← Dict.get?_eq_some_iff]
  cases reachable <;> simp [known, mem_networks]

theorem nodup_known : (s.known.map Prod.fst).Nodup := by
  have hnetworks : ∀ reachable, (s.networks reachable).Nodup := fun reachable =>
    s.knownNetworks.nodup.sublist (List.filter_sublist.map _)
  have hmap : ∀ reachable, ((s.networks reachable).map (·, reachable)).map Prod.fst = s.networks reachable :=
    fun reachable => by
      rw [List.map_map]
      exact List.map_id _
  rw [known, List.map_append, hmap, hmap, List.nodup_append]
  refine ⟨hnetworks _, hnetworks _, ?_⟩
  rintro lan hlan _ hlan' rfl
  have hfalse := mem_networks.mp hlan
  rw [mem_networks.mp hlan'] at hfalse
  cases hfalse

end CellStatus

/-- The data carries the values of the status, the start time to the second. -/
structure CellData.Carries (data : CellData) (s : CellStatus) : Prop where
  uvn : data.uvn = s.uvn
  cell : data.cell = s.cell
  registryId : data.registryId = s.registryId
  routedNetworks : data.routedNetworks.toFinset = s.lans.toFinset
  knownNetworks : ∀ lan, data.knownNetworks.get? lan = s.knownNetworks.get? lan
  tsStart : data.tsStart = s.tsStart.fromEpoch

theorem exists_parseData {s : CellStatus} (h : s.Publishable) :
    ∃ info data, cellAgentStatus s = .ok info ∧ parseData info = .ok data ∧ data.Carries s := by
  have hlans : s.lans.mapM lanDescriptor = .ok (s.lans.map LanDescriptor.site) :=
    Fold.mapM_eq_ok fun lan hlan => lanDescriptor_eq_ok (h.1 lan hlan)
  have hentries : (s.known.foldl (fun d e => d.set e.1 e.2) (∅ : Dict LanDescriptor Bool)).entries = s.known :=
    Dict.foldl_set _ _ (by simpa using s.nodup_known)
  refine ⟨⟨s.cell, s.uvn, s.registryId, s.lans.map LanDescriptor.site, (s.networks true).map LanDescriptor.site,
    (s.networks false).map LanDescriptor.site, s.tsStart.fromEpoch⟩, ⟨s.uvn, s.cell, s.registryId, s.lans,
    s.known.foldl (fun d e => d.set e.1 e.2) ∅, s.tsStart.fromEpoch⟩, ?_, ?_, rfl, rfl, rfl, rfl, fun lan => ?_, rfl⟩
  · rw [cellAgentStatus, hlans, CellStatus.mapM_networks h, CellStatus.mapM_networks h]
    rfl
  · simp only [parseData, mapM_siteToDescriptor, Except.ok_bind]
    rfl
  · apply Option.ext
    intro reachable
    rw [Dict.get?_eq_some_iff, Dict.get?_eq_some_iff, hentries, CellStatus.mem_known]

/-! ### What the peer records -/

namespace UvnPeer

/-- What the peer knows about the reachability of a LAN. -/
def knownNetwork (p : UvnPeer) (lan : LanDescriptor) : Option Bool :=
  Dict.lookupEntry lan (p.knownNetworks.map fun s => (s.key, s.flag.value))

/-- The peer records the values of the status, the start time to the second. -/
structure Records (p : UvnPeer) (s : CellStatus) : Prop where
  registryId : p.registryId.value = some s.registryId
  routedNetworks : p.routedNetworks.value = s.lans.toFinset
  knownNetworks : ∀ lan, p.knownNetwork lan = s.knownNetworks.get? lan
  tsStart : p.tsStart.value.map Timestamp.fromEpoch = some s.tsStart.fromEpoch

theorem records_save {p : UvnPeer} {s : CellStatus} : p.save.Records s ↔ p.Records s := by
  obtain ⟨-, hid, hrouted, hknown⟩ := UvnPeersList.values_save p
  have hts : p.save.tsStart.value = p.tsStart.value := by
    unfold save
    split_ifs <;> rfl
  have hlookup : p.save.knownNetwork = p.knownNetwork := by
    funext lan
    rw [knownNetwork, hknown, knownNetwork]
  constructor
  · intro h
    exact ⟨hid ▸ h.registryId, hrouted ▸ h.routedNetworks, hlookup ▸ h.knownNetworks, hts ▸ h.tsStart⟩
  · intro h
    exact ⟨hid ▸ h.registryId, hrouted ▸ h.routedNetworks, hlookup ▸ h.knownNetworks, by rw [hts]; exact h.tsStart⟩

/-- No start time is recorded at the same time of day, unless it is the same to the second. -/
def AcceptsStart (p : UvnPeer) (seconds : ℕ) : Prop :=
  ∀ t, p.tsStart.value = some t → t.sameTime (.parse seconds) = true → t.fromEpoch = seconds

end UvnPeer

theorem fromEpoch_setBy_iff {t : Tracked (Option Timestamp)} {seconds : ℕ} :
    (t.setBy sameTs (some (.parse seconds))).value.map Timestamp.fromEpoch = some seconds ↔
      ∀ u, t.value = some u → u.sameTime (.parse seconds) = true → u.fromEpoch = seconds := by
  obtain ⟨value, prev⟩ := t
  cases value with
  | none => simp [Tracked.setBy, sameTs]
  | some u =>
    unfold Tracked.setBy sameTs
    by_cases hsame : u.sameTime (.parse seconds) = true
    · simp [hsame]
    · simp [hsame]

/-- What the received data configures. -/
def CellData.fields (data : CellData) (handle writer : Option ℕ) : PeerFields where
  registryId := .ofOption (some data.registryId)
  status := .set .online
  routedNetworks := .set data.routedNetworks.toFinset
  knownNetworks := .set data.knownNetworks
  instanceHandle := .ofOption handle
  writer := .ofOption writer
  tsStart := .ofOption (some (.parse data.tsStart))

theorem records_configure_iff {p : UvnPeer} {s : CellStatus} {data : CellData} (hdata : data.Carries s)
    (handle writer : Option ℕ) :
    (p.configure (data.fields handle writer)).Records s ↔ p.AcceptsStart s.tsStart.fromEpoch := by
  rw [UvnPeer.AcceptsStart, ← fromEpoch_setBy_iff, ← hdata.tsStart]
  constructor
  · intro h
    exact h.tsStart.trans (congrArg some hdata.tsStart.symm)
  · intro h
    refine ⟨?_, ?_, fun lan => ?_, h.trans (congrArg some hdata.tsStart)⟩
    · rw [← hdata.registryId]
      exact Tracked.value_set
    · rw [← hdata.routedNetworks]
      exact Tracked.value_set
    · rw [← hdata.knownNetworks, UvnPeer.knownNetwork]
      exact congrArg (Dict.lookupEntry lan) PeerStatus.map_configureAll

section update
variable {agent : Agent} (l : UvnPeersList agent) (s : CellStatus)

/-- The status is read as it was written, and the peers of the cell record it. -/
def RoundTrips (c : CellRow) (handle writer : Option ℕ) : Prop :=
  ∃ info data, cellAgentStatus s = .ok info ∧ parseData info = .ok data ∧ data.Carries s ∧
    ∃ l', l.step (data.event handle writer) = .ok l' ∧ ∀ p ∈ l'.peers, p.owner = .cell c → p.Records s

variable {l s}

theorem call_event {data : CellData} (hdata : data.Carries s) (huvn : s.uvn = agent.uvnName) {c : CellRow}
    (hcell : agent.uvn.cells.find? (fun c => c.id = s.cell) = some c) (handle writer : Option ℕ) :
    l.call (data.event handle writer) = UvnPeersList.updatePeer (.cell c) (data.fields handle writer) := by
  simp only [CellData.event, UvnPeersList.call, hdata.uvn, hdata.cell, huvn, hcell, ne_eq, not_true_eq_false,
    if_false, CellData.fields]

/-- After the event the peers of the cell record the status if they accepted its start time before. -/
theorem records_step_iff {data : CellData} (hdata : data.Carries s) (huvn : s.uvn = agent.uvnName) {c : CellRow}
    (hcell : agent.uvn.cells.find? (fun c => c.id = s.cell) = some c) {handle writer : Option ℕ}
    {l' : UvnPeersList agent} (hl' : l.step (data.event handle writer) = .ok l') :
    (∀ p ∈ l'.peers, p.owner = .cell c → p.Records s) ↔
      ∀ p ∈ l.peers, p.owner = .cell c → p.AcceptsStart s.tsStart.fromEpoch := by
  rw [UvnPeersList.step, call_event hdata huvn hcell] at hl'
  cases hl'
  refine (UvnPeersList.forall_peers_updateAll (P := fun p => p.owner = .cell c → p.Records s) fun p => ?_).trans ?_
  · rw [UvnPeer.owner_save, UvnPeer.records_save]
  · refine forall₂_congr fun p _ => ?_
    rw [Update.owner_apply]
    refine imp_congr_right fun howner => ?_
    rw [UvnPeersList.apply_of_applies (by simp [Update.appliesTo, howner])]
    exact records_configure_iff hdata handle writer

theorem RoundTrips.acceptsStart {c : CellRow} {handle writer : Option ℕ} (h : RoundTrips l s c handle writer)
    (huvn : s.uvn = agent.uvnName) (hcell : agent.uvn.cells.find? (fun c => c.id = s.cell) = some c) :
    ∀ p ∈ l.peers, p.owner = .cell c → p.AcceptsStart s.tsStart.fromEpoch := by
  obtain ⟨_, data, -, -, hdata, l', hl', hrecords⟩ := h
  exact (records_step_iff hdata huvn hcell hl').mp hrecords

/-- A published status of a known cell makes the round trip just when the cell's peer accepts its start time. -/
theorem statusMessage_iff (hpublishable : s.Publishable) (huvn : s.uvn = agent.uvnName) {c : CellRow}
    (hcell : agent.uvn.cells.find? (fun c => c.id = s.cell) = some c) (handle writer : Option ℕ) :
    RoundTrips l s c handle writer ↔
      ∀ p ∈ l.peers, p.owner = .cell c → p.AcceptsStart s.tsStart.fromEpoch := by
  refine ⟨fun h => h.acceptsStart huvn hcell, fun haccepts => ?_⟩
  obtain ⟨info, data, hinfo, hdata, hcarries⟩ := exists_parseData hpublishable
  obtain ⟨l', hl'⟩ : ∃ l', l.step (data.event handle writer) = .ok l' := by
    rw [UvnPeersList.step, call_event hcarries huvn hcell]
    exact ⟨_, rfl⟩
  exact ⟨info, data, hinfo, hdata, hcarries, l', hl', (records_step_iff hcarries huvn hcell hl').mpr haccepts⟩

end update

/-! ### An example -/

/-- The registry's agent of a UVN with one cell. -/
def exampleAgent : Agent := { UvnPeersList.agent1 with owner := .registry }

def exampleLan : LanDescriptor :=
  ⟨⟨"eth0", ⟨10 * 2 ^ 24 + 1, by decide⟩, ⟨⟨10 * 2 ^ 24, IPv4Network.lt_10⟩, 24, IPv4Network.le_24,
    IPv4Network.aligned_10_24⟩⟩,
    ⟨10 * 2 ^ 24 + 254, by decide⟩⟩

/-- The status of the cell that started at a time. -/
def exampleStatus (tsStart : Timestamp) : CellStatus :=
  ⟨"uvn", 1, "config", tsStart, [exampleLan], (∅ : Dict LanDescriptor Bool).set exampleLan true⟩

theorem publishable_exampleStatus (tsStart : Timestamp) : (exampleStatus tsStart).Publishable := by
  have hsendable : exampleLan.Sendable := Nat.le_add_left 1 23
  refine ⟨fun lan hlan => ?_, fun lan hlan => ?_⟩
  · rw [List.mem_singleton.mp hlan]
    exact hsendable
  · rw [List.mem_singleton.mp hlan]
    exact hsendable

/-- A started agent receives the status of a cell for the first time. -/
theorem statusMessage_first : RoundTrips (.load exampleAgent fun _ => none) (exampleStatus (.parse 3600))
    ⟨1, 1, some "a.example", [⟨⟨10 * 2 ^ 24, by decide⟩, 24, by decide, by decide⟩], false⟩ none none := by
  refine (statusMessage_iff (publishable_exampleStatus _) rfl rfl none none).mpr fun p hp howner t ht => ?_
  have hnone : p.tsStart.value = none := by
    obtain ⟨o, -, rfl⟩ := List.mem_map.mp hp
    rfl
  rw [hnone] at ht
  cases ht

/-- The cell starts again a day later, to the second: the agent keeps the start time it has. -/
theorem statusMessage_stale : ∃ (l : UvnPeersList exampleAgent) (s : CellStatus) (c : CellRow),
    Run.Reaches UvnPeersList.step (fun _ _ => True) (.load exampleAgent fun _ => none) l ∧ s.Publishable ∧
      s.uvn = exampleAgent.uvnName ∧ exampleAgent.uvn.cells.find? (fun c => c.id = s.cell) = some c ∧
      ¬ RoundTrips l s c none none := by
  obtain ⟨l, hl, p, hp, howner, hts⟩ : ∃ l, (UvnPeersList.load exampleAgent fun _ => none).step
      (.onReaderDataCellInfo "uvn" 1 (some "config") {exampleLan} ((∅ : Dict LanDescriptor Bool).set exampleLan true)
        (some (.parse 3600)) none none) = .ok l ∧
      ∃ p ∈ l.peers, p.owner = .cell ⟨1, 1, some "a.example",
        [⟨⟨10 * 2 ^ 24, by decide⟩, 24, by decide, by decide⟩], false⟩ ∧ p.tsStart.value = some (.parse 3600) :=
    ⟨_, rfl, _, .tail _ (.head _), rfl, rfl⟩
  refine ⟨l, exampleStatus (.parse (86400 + 3600)), _, .step _ .refl trivial hl, publishable_exampleStatus _, rfl, rfl,
    fun h => ?_⟩
  have hstart := h.acceptsStart rfl rfl p hp howner _ hts (by decide)
  exact absurd hstart (by decide)

end Uno
