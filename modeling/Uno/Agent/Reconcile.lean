import Uno.Agent.Meaning
import Uno.Lib.Reconcile

/-!
# The networks and interfaces of a peer

`configure_known_networks` and `configure_vpn_interfaces` make the statuses of a peer agree with a dictionary, and delete
the rows of those that are gone. Both report a change that is still pending as well, and the second one keeps the
last handshake if it has the same time of day as the new one (`configure_exact_iff`).
-/

namespace Uno

/-! ### Statuses -/

structure LanStatus where
  /-- The id of its row, once it is saved. -/
  id : Option ℕ
  lan : LanDescriptor
  reachable : Tracked Bool

structure VpnTransfer where
  recv : ℕ
  send : ℕ
  deriving DecidableEq

structure VpnEndpoint where
  address : Option String
  port : Option ℕ
  deriving DecidableEq

structure VpnInterfaceStatus where
  id : Option ℕ
  intf : String
  online : Tracked Bool
  lastHandshake : Tracked (Option Timestamp)
  transfer : Tracked VpnTransfer
  endpoint : Tracked VpnEndpoint
  allowedIps : Tracked (Finset IPv4Network)

/-- What `stat` tells about a peer of an interface. -/
structure VpnPeerStats where
  online : Bool
  lastHandshake : Timestamp
  transfer : VpnTransfer
  endpoint : VpnEndpoint
  allowedIps : Finset IPv4Network

/-- The statistics a status holds. -/
structure VpnStatistics where
  online : Bool
  lastHandshake : Option Timestamp
  transfer : VpnTransfer
  endpoint : VpnEndpoint
  allowedIps : Finset IPv4Network
  deriving DecidableEq

def VpnPeerStats.statistics (stats : VpnPeerStats) : VpnStatistics :=
  ⟨stats.online, some stats.lastHandshake, stats.transfer, stats.endpoint, stats.allowedIps⟩

namespace LanStatus

/-- `new_child(LanStatus, {"lan": lan}, save=False)`. -/
def new (lan : LanDescriptor) : LanStatus := ⟨none, lan, .new false⟩

def configure (s : LanStatus) (reachable : Bool) : LanStatus := { s with reachable := s.reachable.set reachable }

/-- `len(changed_cfg) > 0`: the property is in `changed_properties`. -/
def changedCfg (s : LanStatus) : Bool := s.reachable.prev.isSome

def rules : Reconcile.Rules LanDescriptor LanStatus Bool where
  key := lan
  create := new
  configure := configure
  reports := changedCfg
  key_create _ := rfl
  key_configure _ _ := rfl

end LanStatus

namespace VpnInterfaceStatus

def new (intf : String) : VpnInterfaceStatus :=
  ⟨none, intf, .new false, .new none, .new ⟨0, 0⟩, .new ⟨none, none⟩, .new ∅⟩

def configure (s : VpnInterfaceStatus) (stats : VpnPeerStats) : VpnInterfaceStatus :=
  { s with
    lastHandshake := s.lastHandshake.setBy sameTs (some stats.lastHandshake)
    online := s.online.set stats.online
    transfer := s.transfer.set stats.transfer
    endpoint := s.endpoint.set stats.endpoint
    allowedIps := s.allowedIps.set stats.allowedIps }

def changedCfg (s : VpnInterfaceStatus) : Bool :=
  s.lastHandshake.prev.isSome || s.online.prev.isSome || s.transfer.prev.isSome || s.endpoint.prev.isSome ||
    s.allowedIps.prev.isSome

def statistics (s : VpnInterfaceStatus) : VpnStatistics :=
  ⟨s.online.value, s.lastHandshake.value, s.transfer.value, s.endpoint.value, s.allowedIps.value⟩

def rules : Reconcile.Rules String VpnInterfaceStatus VpnPeerStats where
  key := intf
  create := new
  configure := configure
  reports := changedCfg
  key_create _ := rfl
  key_configure _ _ := rfl

end VpnInterfaceStatus

/-! ### The peer -/

/-- The statuses of a peer, and the ids of the rows of their tables. -/
structure PeerRecords where
  knownNetworks : List LanStatus
  vpnInterfaces : List VpnInterfaceStatus
  lanRows : Finset ℕ
  vpnRows : Finset ℕ
  lans_nodup : (knownNetworks.map LanStatus.lan).Nodup
  intfs_nodup : (vpnInterfaces.map VpnInterfaceStatus.intf).Nodup

/-- `db.delete` of a status, which has no row before it is saved. -/
def deleteStatus (rows : Finset ℕ) (id : Option ℕ) : Finset ℕ :=
  match id with
  | none => rows
  | some i => rows.erase i

namespace PeerRecords

variable (p : PeerRecords)

def configureKnownNetworks (known : Option (Dict LanDescriptor Bool)) : PeerRecords × Bool :=
  let outcome := Reconcile.reconcile LanStatus.rules p.knownNetworks (known.getD ∅)
  ({ p with
      knownNetworks := outcome.configured
      lanRows := (outcome.gone.map LanStatus.id).foldl deleteStatus p.lanRows
      lans_nodup := by
        have hkeys : outcome.configured.map LanStatus.rules.key = (known.getD ∅).keys := Reconcile.map_key_configured
        exact hkeys ▸ (known.getD ∅).keys_nodup }, outcome.changed)

def configureVpnInterfaces (stats : Dict String VpnPeerStats) : PeerRecords × Bool :=
  let outcome := Reconcile.reconcile VpnInterfaceStatus.rules p.vpnInterfaces stats
  ({ p with
      vpnInterfaces := outcome.configured
      vpnRows := (outcome.gone.map VpnInterfaceStatus.id).foldl deleteStatus p.vpnRows
      intfs_nodup := by
        have hkeys : outcome.configured.map VpnInterfaceStatus.rules.key = stats.keys := Reconcile.map_key_configured
        exact hkeys ▸ stats.keys_nodup }, outcome.changed)

/-- The map from LANs to their reachability. -/
def reachability (lan : LanDescriptor) : Option Bool :=
  (p.knownNetworks.find? fun s => s.lan = lan).map fun s => s.reachable.value

/-- The map from interfaces to their statistics. -/
def statistics (intf : String) : Option VpnStatistics :=
  (p.vpnInterfaces.find? fun s => s.intf = intf).map VpnInterfaceStatus.statistics

/-- After `configure_known_networks` the peer holds the argument, the rows of the networks that are gone are deleted, and
a change of the map is reported. -/
structure KnownNetworksExact (known : Option (Dict LanDescriptor Bool)) : Prop where
  held : ∀ lan, (p.configureKnownNetworks known).1.reachability lan = (known.getD ∅).get? lan
  rows : ∀ i, i ∈ (p.configureKnownNetworks known).1.lanRows ↔
    i ∈ p.lanRows ∧ ¬ ∃ s ∈ p.knownNetworks, s.lan ∉ (known.getD ∅).keys ∧ s.id = some i
  changed : (p.configureKnownNetworks known).2 = true ↔
    ∃ lan, (p.configureKnownNetworks known).1.reachability lan ≠ p.reachability lan

structure VpnInterfacesExact (stats : Dict String VpnPeerStats) : Prop where
  held : ∀ intf, (p.configureVpnInterfaces stats).1.statistics intf = (stats.get? intf).map VpnPeerStats.statistics
  rows : ∀ i, i ∈ (p.configureVpnInterfaces stats).1.vpnRows ↔
    i ∈ p.vpnRows ∧ ¬ ∃ s ∈ p.vpnInterfaces, s.intf ∉ stats.keys ∧ s.id = some i
  changed : (p.configureVpnInterfaces stats).2 = true ↔
    ∃ intf, (p.configureVpnInterfaces stats).1.statistics intf ≠ p.statistics intf

end PeerRecords

/-! ### Properties that are set -/

namespace Tracked

variable {α : Type} [DecidableEq α] (t : Tracked α) (value : α)

theorem changed_set : (t.set value).prev.isSome = true ↔ t.prev.isSome = true ∨ (t.set value).value ≠ t.value := by
  unfold set
  split_ifs with h
  · simp
  · simp [Ne.symm h]

omit [DecidableEq α] in
theorem changed_setBy {same : α → α → Bool} (hsame : ∀ a, same a a = true) :
    (t.setBy same value).prev.isSome = true ↔ t.prev.isSome = true ∨ (t.setBy same value).value ≠ t.value := by
  unfold setBy
  split_ifs with h
  · simp
  · have hne : value ≠ t.value := fun heq => h (heq ▸ hsame t.value)
    simp [hne]

omit [DecidableEq α] in
theorem value_setBy {same : α → α → Bool} :
    (t.setBy same value).value = value ↔ (same t.value value = true → t.value = value) := by
  unfold setBy
  split_ifs with h <;> simp [h]

end Tracked

theorem sameTs_self (t : Option Timestamp) : sameTs t t = true := by
  cases t with
  | none => rfl
  | some t => exact decide_eq_true rfl

namespace LanStatus

theorem reports : Reconcile.Reports rules (fun s => s.reachable.value) changedCfg where
  reports s reachable := s.reachable.changed_set reachable

end LanStatus

namespace VpnInterfaceStatus

theorem reports : Reconcile.Reports rules statistics changedCfg where
  reports s stats := by
    have hhandshake := s.lastHandshake.changed_setBy (some stats.lastHandshake) sameTs_self
    have honline := s.online.changed_set stats.online
    have htransfer := s.transfer.changed_set stats.transfer
    have hendpoint := s.endpoint.changed_set stats.endpoint
    have hallowed := s.allowedIps.changed_set stats.allowedIps
    have hne : (configure s stats).statistics ≠ s.statistics ↔
        (s.online.set stats.online).value ≠ s.online.value ∨
        (s.lastHandshake.setBy sameTs (some stats.lastHandshake)).value ≠ s.lastHandshake.value ∨
        (s.transfer.set stats.transfer).value ≠ s.transfer.value ∨
        (s.endpoint.set stats.endpoint).value ≠ s.endpoint.value ∨
        (s.allowedIps.set stats.allowedIps).value ≠ s.allowedIps.value := by
      simp only [statistics, configure, ne_eq, VpnStatistics.mk.injEq, not_and_or]
    show changedCfg (configure s stats) = true ↔ changedCfg s = true ∨ (configure s stats).statistics ≠ s.statistics
    rw [hne]
    simp only [changedCfg, configure, Bool.or_eq_true, hhandshake, honline, htransfer, hendpoint, hallowed]
    simp only [or_assoc, or_left_comm]

end VpnInterfaceStatus

/-! ### Configuring -/

theorem mem_foldl_deleteStatus {ids : List (Option ℕ)} {rows : Finset ℕ} {i : ℕ} :
    i ∈ ids.foldl deleteStatus rows ↔ i ∈ rows ∧ some i ∉ ids := by
  induction ids generalizing rows with
  | nil => simp
  | cons id rest ih =>
    rw [List.foldl_cons, ih]
    cases id with
    | none => simp [deleteStatus]
    | some j =>
      rw [deleteStatus, Finset.mem_erase, List.mem_cons, not_or, and_assoc, and_left_comm, Option.some.injEq]

theorem mem_remainingRows {κ ε α : Type} [DecidableEq κ] {R : Reconcile.Rules κ ε α} {es : List ε} {args : Dict κ α}
    {id : ε → Option ℕ} {rows : Finset ℕ} {i : ℕ} :
    i ∈ ((Reconcile.reconcile R es args).gone.map id).foldl deleteStatus rows ↔
      i ∈ rows ∧ ¬ ∃ e ∈ es, R.key e ∉ args.keys ∧ id e = some i := by
  rw [mem_foldl_deleteStatus, List.mem_map]
  simp only [Reconcile.mem_gone, and_assoc]

namespace PeerRecords

variable {p : PeerRecords}

theorem knownNetworksExact_iff {known : Option (Dict LanDescriptor Bool)} : p.KnownNetworksExact known ↔
    Reconcile.Reconciled LanStatus.rules (fun s => s.reachable.value) id p.knownNetworks (known.getD ∅) := by
  constructor
  · intro h
    refine ⟨fun lan => ?_, (p.configureKnownNetworks known).1.lans_nodup, h.changed⟩
    rw [Option.map_id]
    exact h.held lan
  · intro h
    refine ⟨fun lan => ?_, fun i => mem_remainingRows, h.changed⟩
    have hheld := h.held lan
    rwa [Option.map_id] at hheld

theorem vpnInterfacesExact_iff {stats : Dict String VpnPeerStats} : p.VpnInterfacesExact stats ↔
    Reconcile.Reconciled VpnInterfaceStatus.rules VpnInterfaceStatus.statistics VpnPeerStats.statistics p.vpnInterfaces
      stats :=
  ⟨fun h => ⟨h.held, (p.configureVpnInterfaces stats).1.intfs_nodup, h.changed⟩,
    fun h => ⟨h.held, fun _ => mem_remainingRows, h.changed⟩⟩

theorem statistics_configure {s : VpnInterfaceStatus} {stats : VpnPeerStats} :
    (s.configure stats).statistics = stats.statistics ↔
      (sameTs s.lastHandshake.value (some stats.lastHandshake) = true →
        s.lastHandshake.value = some stats.lastHandshake) := by
  rw [← Tracked.value_setBy]
  simp only [VpnInterfaceStatus.statistics, VpnInterfaceStatus.configure, VpnPeerStats.statistics,
    VpnStatistics.mk.injEq, Tracked.value_set, true_and, and_true]

/-- For every peer and all arguments: `configure_known_networks` and `configure_vpn_interfaces` are exact if and only if
no kept interface has a last handshake that differs from the new one and has the same time of day, and no kept status
has a pending change unless the argument differs from the map. -/
theorem configure_exact_iff (p : PeerRecords) (known : Option (Dict LanDescriptor Bool)) (stats : Dict String VpnPeerStats) :
    (p.KnownNetworksExact known ↔
      ((∀ lan, p.reachability lan = (known.getD ∅).get? lan) → ∀ s ∈ p.knownNetworks, s.changedCfg = false)) ∧
    (p.VpnInterfacesExact stats ↔
      (∀ s ∈ p.vpnInterfaces, ∀ new, stats.get? s.intf = some new →
        sameTs s.lastHandshake.value (some new.lastHandshake) = true → s.lastHandshake.value = some new.lastHandshake) ∧
      ((∀ intf, p.statistics intf = (stats.get? intf).map VpnPeerStats.statistics) →
        ∀ s ∈ p.vpnInterfaces, s.changedCfg = false)) := by
  constructor
  · have hcreate : ∀ lan reachable, ((LanStatus.new lan).configure reachable).reachable.value = id reachable :=
      fun lan reachable => Tracked.value_set
    rw [knownNetworksExact_iff, Reconcile.reconciled_iff LanStatus.reports hcreate p.lans_nodup]
    simp only [Option.map_id, id]
    exact and_iff_right fun s _ reachable _ => Tracked.value_set
  · have hcreate : ∀ intf new, ((VpnInterfaceStatus.new intf).configure new).statistics = VpnPeerStats.statistics new :=
      fun intf new => statistics_configure.mpr fun h => by cases h
    rw [vpnInterfacesExact_iff, Reconcile.reconciled_iff VpnInterfaceStatus.reports hcreate p.intfs_nodup]
    refine and_congr ?_ Iff.rfl
    exact forall₂_congr fun s _ => forall₂_congr fun new _ => statistics_configure

end PeerRecords

/-- An interface that was seen on the first of January, and again a day later at the same time. -/
def handshakeStats (day : ℕ) : VpnPeerStats where
  online := true
  lastHandshake := ⟨day * Timestamp.microsPerDay⟩
  transfer := ⟨0, 0⟩
  endpoint := ⟨none, none⟩
  allowedIps := ∅

/-- The peer keeps the handshake of the first day. -/
theorem handshake_not_updated : ∃ (p : PeerRecords) (stats : Dict String VpnPeerStats), ¬ p.VpnInterfacesExact stats := by
  refine ⟨⟨[], [(VpnInterfaceStatus.new "wg0").configure (handshakeStats 0)], ∅, ∅, by decide, by decide⟩,
    (∅ : Dict String VpnPeerStats).set "wg0" (handshakeStats 1), fun h => ?_⟩
  have hheld := h.held "wg0"
  revert hheld
  decide

end Uno
