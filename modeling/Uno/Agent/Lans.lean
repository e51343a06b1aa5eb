import Uno.Agent.Peers
import Uno.Core.Netmask
import Uno.Lib.Fold

/-!
# Local interfaces and LANs

`listLocalNics` lists the active interfaces of the host that have an IPv4 address. It is meant to leave some of them
out, but looks their names up in the keys of the JSON object that describes the interface: it is right exactly when
that makes no difference (`listsNics_iff`). The LANs of an agent are the addresses of these interfaces that lie in one
of the LANs of its cell (`findsLans_iff`).
-/

namespace Uno

/-! ### The interfaces of a host -/

/-- An address of the family `inet`. -/
structure InetAddr where
  addr : IPv4Address
  prefixlen : ℕ
  le : prefixlen ≤ 32

instance : DecidableEq InetAddr := fun a b =>
  decidable_of_iff ((a.addr, a.prefixlen) = (b.addr, b.prefixlen)) (by cases a; cases b; simp)

/-- An element of `addr_info`. -/
inductive AddrInfo where
  | inet (a : InetAddr)
  | other (family : String)

def AddrInfo.toInet : AddrInfo → Option InetAddr
  | .inet a => some a
  | .other _ => none

/-- An element of the output of `ip -j address show`. -/
structure HostInterface where
  ifname : String
  operstate : String
  linkType : String
  addrInfo : List AddrInfo
  otherKeys : List String

namespace HostInterface

/-- The keys of the JSON object. -/
def keys (i : HostInterface) : List String := "ifname" :: "operstate" :: "link_type" :: "addr_info" :: i.otherKeys

def inetAddrs (i : HostInterface) : List InetAddr := i.addrInfo.filterMap AddrInfo.toInet

/-- The interface is up, has an IPv4 address and, unless loopback is included, is not a loopback. -/
def isLocal (includeLoopback : Bool) (i : HostInterface) : Bool :=
  i.operstate = "UP" ∧ (includeLoopback ∨ i.linkType ≠ "loopback") ∧ i.inetAddrs ≠ []

/-- What the code tests to leave out the interfaces of `skip` and those that are not in `interfaces`. -/
def passes (interfaces skip : Option (List String)) (i : HostInterface) : Bool :=
  (skip = none ∨ i.ifname ∉ i.keys) ∧ (interfaces = none ∨ i.ifname ∈ i.keys)

end HostInterface

/-- The interfaces of a host have different names. -/
structure Host where
  interfaces : List HostInterface
  nodup : (interfaces.map HostInterface.ifname).Nodup

/-- An address as `list_local_nics` describes it. -/
structure NicAddr where
  addr : IPv4Address
  netmask : ℕ
  subnet : IPv4Network
  deriving DecidableEq

def NicAddr.ofInet (a : InetAddr) : Result NicAddr := do
  let subnet ← ipv4NicNetwork a.addr (.size a.prefixlen)
  .ok ⟨a.addr, a.prefixlen, subnet⟩

def listLocalNics (host : Host) (interfaces skip : Option (List String)) (includeLoopback : Bool) :
    Result (List (String × List NicAddr)) :=
  (host.interfaces.filter fun i => i.isLocal includeLoopback && i.passes interfaces skip).mapM fun i => do
    let addrs ← i.inetAddrs.mapM NicAddr.ofInet
    .ok (i.ifname, addrs)

/-! ### The LANs of an agent -/

/-- `NicDescriptor(name=..., address=..., subnet=...)`: the text of a descriptor shows its netmask. -/
def NicDescriptor.new (name : String) (address : IPv4Address) (subnet : IPv4Network) : Result NicDescriptor := do
  let _ ← ipv4NetmaskToCidr subnet.netmask
  .ok ⟨name, address, subnet⟩

/-- `LanDescriptor(nic=..., gw=...)`, with its own copy of the descriptor. -/
def LanDescriptor.new (nic : NicDescriptor) (gw : IPv4Address) : Result LanDescriptor := do
  let nic ← NicDescriptor.new nic.name nic.address nic.subnet
  .ok ⟨nic, gw⟩

/-- `NicDescriptor.list_local_networks`. -/
def listLocalNetworks (host : Host) (skip : Option (List String)) : Result (List NicDescriptor) := do
  let nics ← listLocalNics host none skip false
  (nics.flatMap fun nic => nic.2.map fun a => (nic.1, a)).mapM fun nic => NicDescriptor.new nic.1 nic.2.addr nic.2.subnet

/-- `Agent.lans`, for an agent of a cell with these allowed LANs and these VPN interfaces. -/
def lans (host : Host) (allowedLans : List IPv4Network) (vpnInterfaces : List String)
    (getRoute : IPv4Address → Result IPv4Address) : Result (List LanDescriptor) :=
  if allowedLans = [] then .ok []
  else do
    let localNics ← listLocalNetworks host (some vpnInterfaces)
    (localNics.filter fun nic => allowedLans.any (·.contains nic.address)).mapM fun nic => do
      let gw ← getRoute nic.subnet.networkAddress
      LanDescriptor.new nic gw

/-! ### What is listed -/

/-- The network of an address. -/
def InetAddr.subnet (a : InetAddr) : IPv4Network := IPv4Network.ofInterface a.addr a.prefixlen a.le

/-- The entry of an interface. -/
def HostInterface.entry (i : HostInterface) : String × List NicAddr :=
  (i.ifname, i.inetAddrs.map fun a => ⟨a.addr, a.prefixlen, a.subnet⟩)

def HostInterface.nic (i : HostInterface) (a : InetAddr) : NicDescriptor := ⟨i.ifname, a.addr, a.subnet⟩

theorem NicAddr.ofInet_eq (a : InetAddr) : NicAddr.ofInet a = .ok ⟨a.addr, a.prefixlen, a.subnet⟩ := by
  rw [NicAddr.ofInet, ipv4NicNetwork_size a.addr a.le]
  rfl

theorem listLocalNics_eq (host : Host) (interfaces skip : Option (List String)) (includeLoopback : Bool) :
    listLocalNics host interfaces skip includeLoopback =
      .ok ((host.interfaces.filter fun i => i.isLocal includeLoopback && i.passes interfaces skip).map
        HostInterface.entry) := by
  refine Fold.mapM_eq_ok fun i _ => ?_
  rw [Fold.mapM_eq_ok fun a _ => NicAddr.ofInet_eq a]
  rfl

theorem NicDescriptor.new_eq (name : String) (address : IPv4Address) (subnet : IPv4Network) :
    NicDescriptor.new name address subnet =
      if subnet.prefixlen = 0 then .error (.value "substring not found") else .ok ⟨name, address, subnet⟩ := by
  rw [NicDescriptor.new, ipv4NetmaskToCidr_netmask]
  split_ifs <;> rfl

theorem LanDescriptor.new_eq {nic : NicDescriptor} (gw : IPv4Address) (h : nic.subnet.prefixlen ≠ 0) :
    LanDescriptor.new nic gw = .ok ⟨nic, gw⟩ := by
  rw [LanDescriptor.new, NicDescriptor.new_eq, if_neg h]
  rfl

section
variable {host : Host} {skip : Option (List String)}

/-- The interfaces that `listLocalNetworks` goes through. -/
def Host.kept (host : Host) (skip : Option (List String)) : List HostInterface :=
  host.interfaces.filter fun i => i.isLocal false && i.passes none skip

theorem listLocalNetworks_eq_ok_iff {nics : List NicDescriptor} :
    listLocalNetworks host skip = .ok nics ↔
      (∀ i ∈ host.kept skip, ∀ a ∈ i.inetAddrs, a.prefixlen ≠ 0) ∧
        nics = (host.kept skip).flatMap fun i => i.inetAddrs.map i.nic := by
  have hflat : ((host.kept skip).map HostInterface.entry).flatMap (fun nic => nic.2.map fun a => (nic.1, a)) =
      (host.kept skip).flatMap fun i => i.inetAddrs.map fun a => (i.ifname, ⟨a.addr, a.prefixlen, a.subnet⟩) := by
    rw [List.flatMap_map]
    refine List.flatMap_congr fun i _ => ?_
    rw [HostInterface.entry, List.map_map]
    rfl
  rw [listLocalNetworks, listLocalNics_eq, Except.ok_bind]
  show (((host.kept skip).map HostInterface.entry).flatMap _).mapM _ = _ ↔ _
  rw [hflat, Fold.mapM_eq_ok_iff_of_cases (g := fun nic => (⟨nic.1, nic.2.addr, nic.2.subnet⟩ : NicDescriptor))
    (P := fun nic => nic.2.subnet.prefixlen ≠ 0) (fun nic _ hne => ?_) (fun nic _ heq => ?_)]
  · rw [List.map_flatMap]
    simp only [List.mem_flatMap, List.mem_map, List.map_map]
    refine and_congr ⟨fun h i hi a ha => ?_, ?_⟩ Iff.rfl
    · exact h _ ⟨i, hi, a, ha, rfl⟩
    · rintro h _ ⟨i, hi, a, ha, rfl⟩
      exact h i hi a ha
  · rw [NicDescriptor.new_eq, if_neg hne]
  · rw [NicDescriptor.new_eq, if_pos (not_not.mp heq)]
    exact ⟨_, rfl⟩

/-- The LANs of an interface: its addresses that lie in an allowed LAN. -/
def HostInterface.lans (allowedLans : List IPv4Network) (route : IPv4Address → IPv4Address) (i : HostInterface) :
    List LanDescriptor :=
  (i.inetAddrs.filter fun a => allowedLans.any (·.contains a.addr)).map fun a =>
    ⟨i.nic a, route a.subnet.networkAddress⟩

theorem lans_eq_ok_iff {allowedLans : List IPv4Network} {vpnInterfaces : List String}
    {route : IPv4Address → IPv4Address} {r : List LanDescriptor} (hallowed : allowedLans ≠ []) :
    lans host allowedLans vpnInterfaces (fun target => .ok (route target)) = .ok r ↔
      (∀ i ∈ host.kept (some vpnInterfaces), ∀ a ∈ i.inetAddrs, a.prefixlen ≠ 0) ∧
        r = (host.kept (some vpnInterfaces)).flatMap (HostInterface.lans allowedLans route) := by
  have hmap : (∀ i ∈ host.kept (some vpnInterfaces), ∀ a ∈ i.inetAddrs, a.prefixlen ≠ 0) →
      (((host.kept (some vpnInterfaces)).flatMap fun i => i.inetAddrs.map i.nic).filter fun nic =>
          allowedLans.any (·.contains nic.address)).mapM
        (fun nic => LanDescriptor.new nic (route nic.subnet.networkAddress)) =
      .ok ((host.kept (some vpnInterfaces)).flatMap (HostInterface.lans allowedLans route)) := by
    intro hlength
    rw [Fold.mapM_eq_ok (g := fun nic => (⟨nic, route nic.subnet.networkAddress⟩ : LanDescriptor)),
      List.filter_flatMap, List.map_flatMap]
    · refine congrArg Except.ok (List.flatMap_congr fun i _ => ?_)
      rw [List.filter_map, List.map_map]
      rfl
    · intro nic hnic
      obtain ⟨i, hi, hmem⟩ := List.mem_flatMap.mp (List.mem_filter.mp hnic).1
      obtain ⟨a, ha, rfl⟩ := List.mem_map.mp hmem
      have hnic : (i.nic a).subnet.prefixlen ≠ 0 := hlength i hi a ha
      exact LanDescriptor.new_eq _ hnic
  rw [lans, if_neg hallowed, Except.bind_eq_ok_iff]
  simp only [listLocalNetworks_eq_ok_iff, Except.ok_bind]
  constructor
  · rintro ⟨nics, ⟨hlength, rfl⟩, h⟩
    rw [hmap hlength, Except.ok.injEq] at h
    exact ⟨hlength, h.symm⟩
  · rintro ⟨hlength, rfl⟩
    exact ⟨_, ⟨hlength, rfl⟩, hmap hlength⟩

end

/-! ### What should be listed -/

/-- Two selections of a list that is indexed by a key give the same values exactly when they agree on the elements
that have a value; the values of an element show its key. -/
theorem flatMap_filter_eq_iff {α β : Type} {l : List α} {p q : α → Bool} {f : α → List β} {key : α → String}
    {keyOf : β → String} (hnodup : (l.map key).Nodup) (hkey : ∀ a ∈ l, ∀ b ∈ f a, keyOf b = key a) :
    (l.filter p).flatMap f = (l.filter q).flatMap f ↔ ∀ a ∈ l, f a ≠ [] → p a = q a := by
  have hselects : ∀ {p q : α → Bool} {a : α}, (l.filter p).flatMap f = (l.filter q).flatMap f → a ∈ l → f a ≠ [] →
      p a = true → q a = true := by
    intro p q a heq ha hne hp
    obtain ⟨b, hb⟩ := List.exists_mem_of_ne_nil _ hne
    have hmem : b ∈ (l.filter q).flatMap f := heq ▸ List.mem_flatMap.mpr ⟨a, List.mem_filter.mpr ⟨ha, hp⟩, hb⟩
    obtain ⟨a', ha', hb'⟩ := List.mem_flatMap.mp hmem
    obtain ⟨ha', hq⟩ := List.mem_filter.mp ha'
    have hsame : key a' = key a := by rw [← hkey a' ha' b hb', hkey a ha b hb]
    rwa [List.inj_on_of_nodup_map hnodup ha' ha hsame] at hq
  constructor
  · intro heq a ha hne
    exact Bool.eq_iff_iff.mpr ⟨hselects heq ha hne, hselects heq.symm ha hne⟩
  · intro h
    clear hselects hnodup hkey
    induction l with
    | nil => rfl
    | cons a l ih =>
      have ih := ih fun b hb => h b (List.mem_cons_of_mem _ hb)
      by_cases hne : f a = []
      · cases hp : p a <;> cases hq : q a <;> simp [hp, hq, hne, ih]
      · have hpq := h a List.mem_cons_self hne
        cases hq : q a <;> simp [hpq, hq, ih]

/-- The interface is not in `skip` and, when `interfaces` are given, among them. -/
def HostInterface.wanted (interfaces skip : Option (List String)) (i : HostInterface) : Bool :=
  i.ifname ∉ skip.getD [] ∧ interfaces.all (i.ifname ∈ ·)

/-- `list_local_nics` lists the local interfaces that are wanted, with their addresses. -/
def ListsNics (host : Host) (interfaces skip : Option (List String)) : Prop :=
  listLocalNics host interfaces skip false =
    .ok ((host.interfaces.filter fun i => i.isLocal false && i.wanted interfaces skip).map HostInterface.entry)

/-- The LANs are the addresses, in an allowed LAN, of the local interfaces that are not one of the VPN interfaces. -/
def FindsLans (host : Host) (allowedLans : List IPv4Network) (vpnInterfaces : List String)
    (route : IPv4Address → IPv4Address) : Prop :=
  ∃ found, lans host allowedLans vpnInterfaces (fun target => .ok (route target)) = .ok found ∧
    (∀ lan ∈ found, lan.nic.name ∉ vpnInterfaces) ∧
    found = (host.interfaces.filter fun i => i.isLocal false && i.ifname ∉ vpnInterfaces).flatMap
      (HostInterface.lans allowedLans route)

theorem HostInterface.name_of_mem_lans {allowedLans : List IPv4Network} {route : IPv4Address → IPv4Address}
    {i : HostInterface} {lan : LanDescriptor} (h : lan ∈ i.lans allowedLans route) : lan.nic.name = i.ifname := by
  obtain ⟨a, -, rfl⟩ := List.mem_map.mp h
  rfl

theorem HostInterface.lans_ne_nil_iff {allowedLans : List IPv4Network} {route : IPv4Address → IPv4Address}
    {i : HostInterface} :
    i.lans allowedLans route ≠ [] ↔ ∃ a ∈ i.inetAddrs, ∃ lan ∈ allowedLans, lan.contains a.addr := by
  rw [ne_eq, HostInterface.lans, List.map_eq_nil_iff, List.filter_eq_nil_iff]
  simp only [List.any_eq_true, not_forall, exists_prop, not_not]

theorem and_eq_and_iff {b c d : Bool} : (b && c) = (b && d) ↔ (b → c = d) := by
  cases b <;> simp

theorem listsNics_iff (host : Host) (interfaces skip : Option (List String)) :
    ListsNics host interfaces skip ↔
      ∀ i ∈ host.interfaces, i.isLocal false → i.passes interfaces skip = i.wanted interfaces skip := by
  have hkey : ∀ i ∈ host.interfaces, ∀ e ∈ [i.entry], e.1 = i.ifname := by
    intro i _ e he
    rw [List.mem_singleton.mp he]
    rfl
  rw [ListsNics, listLocalNics_eq, Except.ok.injEq, List.map_eq_flatMap, List.map_eq_flatMap,
    flatMap_filter_eq_iff host.nodup hkey]
  refine forall₂_congr fun i _ => ?_
  rw [and_eq_and_iff]
  exact forall_prop_of_true (List.cons_ne_nil _ _)

theorem findsLans_iff (host : Host) (allowedLans : List IPv4Network) (vpnInterfaces : List String)
    (route : IPv4Address → IPv4Address) :
    FindsLans host allowedLans vpnInterfaces route ↔
      (allowedLans ≠ [] → ∀ i ∈ host.interfaces, i.isLocal false → i.ifname ∉ i.keys →
        ∀ a ∈ i.inetAddrs, a.prefixlen ≠ 0) ∧
      ∀ i ∈ host.interfaces, i.isLocal false →
        (∃ a ∈ i.inetAddrs, ∃ lan ∈ allowedLans, lan.contains a.addr) →
          (i.ifname ∉ i.keys ↔ i.ifname ∉ vpnInterfaces) := by
  have hname : ∀ lan ∈ (host.interfaces.filter fun i => i.isLocal false && i.ifname ∉ vpnInterfaces).flatMap
      (HostInterface.lans allowedLans route), lan.nic.name ∉ vpnInterfaces := by
    intro lan hlan
    obtain ⟨i, hi, hmem⟩ := List.mem_flatMap.mp hlan
    have hselected := (List.mem_filter.mp hi).2
    rw [Bool.and_eq_true, decide_eq_true_eq] at hselected
    rw [HostInterface.name_of_mem_lans hmem]
    exact hselected.2
  have hpasses : ∀ i : HostInterface, i.passes none (some vpnInterfaces) = decide (i.ifname ∉ i.keys) := by
    intro i
    simp [HostInterface.passes]
  by_cases hallowed : allowedLans = []
  · -- without allowed LANs, nothing is looked for, and there is nothing to find
    subst hallowed
    refine iff_of_true ⟨[], rfl, fun _ h => absurd h List.not_mem_nil, ?_⟩
      ⟨fun h => absurd rfl h, fun i _ _ ⟨a, _, lan, hlan, _⟩ => absurd hlan List.not_mem_nil⟩
    refine (List.flatMap_eq_nil_iff.mpr fun i _ => ?_).symm
    by_contra hne
    obtain ⟨a, -, lan, hlan, -⟩ := HostInterface.lans_ne_nil_iff.mp hne
    exact List.not_mem_nil hlan
  · have hsame : (host.kept (some vpnInterfaces)).flatMap (HostInterface.lans allowedLans route) =
        (host.interfaces.filter fun i => i.isLocal false && i.ifname ∉ vpnInterfaces).flatMap
          (HostInterface.lans allowedLans route) ↔
        ∀ i ∈ host.interfaces, i.isLocal false →
          (∃ a ∈ i.inetAddrs, ∃ lan ∈ allowedLans, lan.contains a.addr) →
            (i.ifname ∉ i.keys ↔ i.ifname ∉ vpnInterfaces) := by
      rw [Host.kept, flatMap_filter_eq_iff host.nodup fun i _ lan hlan => HostInterface.name_of_mem_lans hlan]
      refine forall₂_congr fun i _ => ?_
      rw [and_eq_and_iff, hpasses, HostInterface.lans_ne_nil_iff, decide_eq_decide]
      exact ⟨fun h hlocal haddr => h haddr hlocal, fun h haddr hlocal => h hlocal haddr⟩
    rw [← hsame, FindsLans]
    simp only [lans_eq_ok_iff hallowed]
    have hkept : ∀ {i}, i ∈ host.kept (some vpnInterfaces) ↔
        i ∈ host.interfaces ∧ i.isLocal false ∧ i.ifname ∉ i.keys := by
      intro i
      rw [Host.kept, List.mem_filter, Bool.and_eq_true, hpasses, decide_eq_true_eq]
    constructor
    · rintro ⟨found, ⟨hlength, rfl⟩, -, heq⟩
      exact ⟨fun _ i hi hlocal hkeys => hlength i (hkept.mpr ⟨hi, hlocal, hkeys⟩), heq⟩
    · rintro ⟨hlength, heq⟩
      refine ⟨_, ⟨fun i hi => ?_, rfl⟩, ?_, heq⟩
      · obtain ⟨hmem, hlocal, hkeys⟩ := hkept.mp hi
        exact hlength hallowed i hmem hlocal hkeys
      · rw [heq]
        exact hname

/-- The discovery is right when looking a name up in the keys of an interface's own description makes no difference,
and, for the LANs, when no interface that is gone through has an address without a network part. -/
theorem lan_discovery_iff (host : Host) :
    (∀ interfaces skip : Option (List String), ListsNics host interfaces skip ↔
      ∀ i ∈ host.interfaces, i.isLocal false → i.passes interfaces skip = i.wanted interfaces skip) ∧
    ∀ (allowedLans : List IPv4Network) (vpnInterfaces : List String)
      (route : IPv4Address → IPv4Address), FindsLans host allowedLans vpnInterfaces route ↔
        (allowedLans ≠ [] → ∀ i ∈ host.interfaces, i.isLocal false → i.ifname ∉ i.keys →
          ∀ a ∈ i.inetAddrs, a.prefixlen ≠ 0) ∧
        ∀ i ∈ host.interfaces, i.isLocal false →
          (∃ a ∈ i.inetAddrs, ∃ lan ∈ allowedLans, lan.contains a.addr) →
            (i.ifname ∉ i.keys ↔ i.ifname ∉ vpnInterfaces) :=
  ⟨listsNics_iff host, findsLans_iff host⟩

/-- A host with one interface, `uwg-v0`, at `10.0.0.1/24`. -/
def vpnHost : Host where
  interfaces := [⟨"uwg-v0", "UP", "none", [.inet ⟨⟨0x0A000001, by decide⟩, 24, IPv4Network.le_24⟩], ["ifindex", "flags"]⟩]
  nodup := List.nodup_singleton _

/-- The interface is listed although it is to be skipped, it is not when it is asked for, and it is one of the LANs of
the agent whose VPN interface it is. -/
theorem lan_discovery_fails :
    listLocalNics vpnHost none (some ["uwg-v0"]) false =
        .ok [("uwg-v0", [⟨⟨0x0A000001, by decide⟩, 24, ⟨⟨0x0A000000, by decide⟩, 24, by decide, by decide⟩⟩])] ∧
      ¬ListsNics vpnHost none (some ["uwg-v0"]) ∧
      listLocalNics vpnHost (some ["uwg-v0"]) none false = .ok [] ∧
      ¬ListsNics vpnHost (some ["uwg-v0"]) none ∧
      ¬FindsLans vpnHost [⟨⟨0x0A000000, by decide⟩, 8, by decide, by decide⟩] ["uwg-v0"] id := by
  refine ⟨by decide, fun h => ?_, by decide, fun h => ?_, fun h => ?_⟩
  · exact absurd ((listsNics_iff _ _ _).mp h _ List.mem_cons_self (by decide)) (by decide)
  · exact absurd ((listsNics_iff _ _ _).mp h _ List.mem_cons_self (by decide)) (by decide)
  · have hiff := ((findsLans_iff _ _ _ _).mp h).2 _ List.mem_cons_self (by decide)
      ⟨_, List.mem_cons_self, _, List.mem_cons_self, by decide⟩
    exact absurd (hiff.mp (by decide)) (by decide)

end Uno
