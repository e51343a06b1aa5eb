import Uno.Core.Ip
import Uno.Lib.Fold
import Uno.Lib.RuleChains

/-!
# The firewall of an agent

`UvnNet` installs a chain of iptables rules for each interface that it forwards, logs each rule under the interface, and
takes the rules down from this log.
-/

namespace Uno

/-! ### iptables -/

/-- The arguments of a command. -/
abbrev Tokens := List String

abbrev Iptables := RuleTables String String Tokens String

abbrev IptablesCommand := ChainCommand String String Tokens String

namespace Iptables

/-- The target in the options of a rule; all options but two take one argument. -/
def jump : Tokens → Option String
  | "-j" :: target :: _ => some target
  | "--tcp-flags" :: _ :: _ :: rest => jump rest
  | "--clamp-mss-to-pmtu" :: rest => jump rest
  | _ :: _ :: rest => jump rest
  | _ => none

/-- The targets that are no chains. -/
def standardTarget (target : String) : Bool :=
  target ∈ ["ACCEPT", "DROP", "QUEUE", "RETURN", "DNAT", "LOG", "MARK", "MASQUERADE", "REDIRECT", "REJECT", "SNAT", "TCPMSS"]

def parseOp : Tokens → Option (String × ChainOp Tokens String)
  | ["-P", chain, policy] => some (chain, .setPolicy policy)
  | ["-N", chain] => some (chain, .new)
  | ["-X", chain] => some (chain, .delete)
  | "-A" :: chain :: rule => some (chain, .append rule)
  | "-I" :: chain :: rule => some (chain, .insert rule)
  | "-D" :: chain :: rule => some (chain, .remove rule)
  | _ => none

def parse : Tokens → Option IptablesCommand
  | "-t" :: table :: tokens => (parseOp tokens).map fun (chain, op) => ⟨table, chain, op⟩
  | tokens => (parseOp tokens).map fun (chain, op) => ⟨"filter", chain, op⟩

/-- `iptables` with these arguments. -/
def exec (t : Iptables) (tokens : Tokens) : Result Iptables :=
  match (parse tokens).bind (RuleTables.exec jump standardTarget t) with
  | some t => .ok t
  | none => .error (.runtime "iptables")

end Iptables

namespace IPv4Network

/-- `str(address)`. -/
def addressStr (a : IPv4Address) : String :=
  ".".intercalate ([a.toNat / 2 ^ 24, a.toNat / 2 ^ 16 % 256, a.toNat / 2 ^ 8 % 256, a.toNat % 256].map toString)

def str (n : IPv4Network) : String := addressStr n.networkAddress ++ "/" ++ toString n.prefixlen

/-- The order of networks. -/
def sortsBefore (n m : IPv4Network) : Bool :=
  n.networkAddress.toNat < m.networkAddress.toNat ∨ n.networkAddress = m.networkAddress ∧ n.prefixlen ≤ m.prefixlen

end IPv4Network

/-! ### The rules of uno -/

/-- The part of the configuration of a VPN interface that the firewall depends on. -/
structure VpnNic where
  name : String
  subnet : IPv4Network
  masquerade : Bool

/-- What the firewall is made of: the interface of each LAN, the VPN interfaces, the subnets of the settings, and the
allowed LANs of all cells. -/
structure UvnNetAgent where
  lans : List String
  rootVpn : Option VpnNic
  particlesVpn : Option VpnNic
  backboneVpns : List VpnNic
  rootSubnet : IPv4Network
  particlesSubnet : IPv4Network
  backboneSubnet : IPv4Network
  allowedLans : List IPv4Network

namespace UvnNetAgent

variable (agent : UvnNetAgent)

def vpnInterfaces : List VpnNic := agent.rootVpn.toList ++ agent.particlesVpn.toList ++ agent.backboneVpns

/-- `sorted`, of names. -/
def sortNames (names : List String) : List String := names.mergeSort fun a b => a ≤ b

def subnets : List IPv4Network :=
  ((if agent.rootVpn.isSome then [agent.rootSubnet] else []) ++
    (if agent.particlesVpn.isSome then [agent.particlesSubnet] else []) ++
    (if agent.backboneVpns ≠ [] then [agent.backboneSubnet] else []) ++ agent.allowedLans).mergeSort IPv4Network.sortsBefore

def otherNics : List String := sortNames (agent.vpnInterfaces.map VpnNic.name ++ agent.lans)

/-- The rules of `_iptables_forward`. -/
def forwardRules (dockerInstalled : Bool) (nic : String) : List Tokens :=
  let chain := "FORWARD_" ++ nic
  [["-N", chain], ["-A", "FORWARD", "-j", chain],
    ["-A", chain, "-o", nic, "-m", "conntrack", "--ctstate", "RELATED,ESTABLISHED", "-j", "ACCEPT"]] ++
  agent.subnets.map (fun subnet => ["-A", chain, "-s", subnet.str, "-i", nic, "-j", "ACCEPT"]) ++
  (if dockerInstalled then
    agent.otherNics.map fun other => ["-I", "DOCKER-USER", "-i", nic, "-o", other, "-j", "ACCEPT"] else []) ++
  [["-A", chain, "-i", nic, "-j", "DROP"], ["-A", chain, "-j", "RETURN"]]

/-- The rules of `_vpn_masquerade`. Two interfaces are equal when their names are. -/
def masqueradeRules (vpn : VpnNic) : List Tokens :=
  (sortNames agent.lans ++ (sortNames (agent.vpnInterfaces.map VpnNic.name)).filter (· ≠ vpn.name)).map fun nic =>
    ["-t", "nat", "-A", "POSTROUTING", "-s", vpn.subnet.str, "-o", nic, "-j", "MASQUERADE"]

end UvnNetAgent

def forwardDrop : Tokens := ["-P", "FORWARD", "DROP"]

def pmtuRule : Tokens := ["-p", "tcp", "--tcp-flags", "SYN,RST", "SYN", "-j", "TCPMSS", "--clamp-mss-to-pmtu"]

def tcpPmtu : Tokens := "-A" :: "FORWARD" :: pmtuRule

/-! ### Start and stop -/

/-- The tables of the kernel, the file `iptables_backup`, and the rules by identifier. -/
structure UvnNet where
  tables : Iptables
  backup : Option Iptables := none
  rules : Dict String (List Tokens) := ∅

namespace UvnNet

variable (agent : UvnNetAgent)

def install (ruleId : String) (s : UvnNet) (rule : Tokens) : Result UvnNet := do
  let tables ← Iptables.exec s.tables rule
  .ok { s with tables, rules := s.rules.set ruleId ((s.rules.get? ruleId).getD [] ++ [rule]) }

/-- `_detect_docker_iptables`. -/
def dockerInstalled (t : Iptables) : Bool := ("filter", "DOCKER-USER") ∈ t.keys

def iptablesForward (s : UvnNet) (nic : String) : Result UvnNet :=
  (agent.forwardRules (dockerInstalled s.tables) nic).foldlM (install nic) s

def vpnMasquerade (s : UvnNet) (vpn : VpnNic) : Result UvnNet :=
  (agent.masqueradeRules vpn).foldlM (install vpn.name) s

/-- `_start`, but for the interfaces. -/
def start (s : UvnNet) : Result UvnNet := do
  let s := { s with backup := some s.tables }
  let s ← install "forward_drop" s forwardDrop
  let s ← install "tcp_pmtu" s tcpPmtu
  let s ← agent.lans.foldlM (iptablesForward agent) s
  agent.vpnInterfaces.foldlM (fun s vpn => do
    let s ← iptablesForward agent s vpn.name
    if vpn.masquerade then vpnMasquerade agent s vpn else .ok s) s

/-- `tkn_map`. -/
def tknMap (tkn : String) : String :=
  match tkn with
  | "-I" => "-D"
  | "-A" => "-D"
  | "-N" => "-X"
  | tkn => tkn

def delRule (rule : Tokens) : Result Tokens := do
  if rule.head? = some "-P" then
    pyAssert (rule.length = 3)
    .ok (rule.take 2 ++ ["ACCEPT"])
  else .ok (rule.map tknMap)

/-- `_stop(assert_stopped=False)`, but for the interfaces. Without a backup it is the restore that fails. -/
def stop (s : UvnNet) : Result Iptables :=
  match s.backup with
  | none => .error (.runtime "iptables-restore")
  | some _ =>
    s.rules.entries.foldlM (fun t e => e.2.reverse.foldlM (fun t rule => do
      let rule ← delRule rule
      Iptables.exec t rule) t) s.tables

end UvnNet

end Uno
