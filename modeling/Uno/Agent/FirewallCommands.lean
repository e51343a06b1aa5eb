import Uno.Agent.Firewall

/-!
# The commands of the firewall

The rules of `UvnNet` as commands on chains: start issues them in order and logs them under the interface
(`UvnNet.start_eq`), and stop issues the opposite of each one, group by group, in reverse within a group
(`UvnNet.stop_eq_ok_iff`).
-/

namespace Uno

/-! ### Commands and their arguments -/

namespace Iptables

open ChainOp

def opTokens (chain : String) : ChainOp Tokens String → Tokens
  | .setPolicy policy => ["-P", chain, policy]
  | .new => ["-N", chain]
  | .delete => ["-X", chain]
  | .append rule => "-A" :: chain :: rule
  | .insert rule => "-I" :: chain :: rule
  | .remove rule => "-D" :: chain :: rule

/-- The arguments that stand for a command. -/
def tokens (cmd : IptablesCommand) : Tokens :=
  (if cmd.table = "filter" then [] else ["-t", cmd.table]) ++ opTokens cmd.chain cmd.op

theorem parse_tokens (cmd : IptablesCommand) : parse (tokens cmd) = some cmd := by
  obtain ⟨table, chain, op⟩ := cmd
  rw [tokens]
  by_cases htable : table = "filter"
  · subst htable
    cases op <;> rfl
  · rw [if_neg htable]
    cases op <;> rfl

theorem exec_tokens_eq_ok_iff {t t' : Iptables} {cmd : IptablesCommand} :
    exec t (tokens cmd) = .ok t' ↔ RuleTables.exec jump standardTarget t cmd = some t' := by
  rw [exec, parse_tokens, Option.bind_some]
  cases RuleTables.exec jump standardTarget t cmd with
  | some t₁ => simp
  | none => simp

end Iptables

namespace UvnNet

open Iptables

/-- The command that `_stop` issues for a command. -/
def undo (cmd : IptablesCommand) : IptablesCommand :=
  { cmd with op := match cmd.op with
    | .setPolicy _ => .setPolicy "ACCEPT"
    | .new => .delete
    | .append rule | .insert rule => .remove (rule.map tknMap)
    | op => op }

theorem delRule_tokens {cmd : IptablesCommand} (hbuilds : cmd.op.builds) (hchain : tknMap cmd.chain = cmd.chain)
    (htable : tknMap cmd.table = cmd.table) (hpolicy : ∀ p, cmd.op = .setPolicy p → cmd.table = "filter") :
    delRule (tokens cmd) = .ok (tokens (undo cmd)) := by
  obtain ⟨table, chain, op⟩ := cmd
  simp only at hchain htable hpolicy
  have happend (flag : String) (hflag : tknMap flag = "-D") (hne : flag ≠ "-P") (rule : Tokens) :
      delRule ((if table = "filter" then [] else ["-t", table]) ++ flag :: chain :: rule) =
        .ok ((if table = "filter" then [] else ["-t", table]) ++ "-D" :: chain :: rule.map tknMap) := by
    by_cases hfilter : table = "filter"
    · rw [if_pos hfilter, delRule, List.nil_append, List.nil_append, if_neg (by simpa using hne)]
      simp [hflag, hchain]
    · rw [if_neg hfilter, delRule, if_neg (by simp)]
      simp [hflag, hchain, htable, show tknMap "-t" = "-t" from rfl]
  cases op with
  | setPolicy p =>
    rw [hpolicy p rfl]
    rfl
  | new =>
    rw [tokens, tokens, delRule]
    by_cases hfilter : table = "filter"
    · simp [opTokens, undo, hfilter, hchain, show tknMap "-N" = "-X" from rfl]
    · simp [opTokens, undo, hfilter, hchain, htable, show tknMap "-N" = "-X" from rfl, show tknMap "-t" = "-t" from rfl]
  | append rule => exact happend "-A" rfl (by decide) rule
  | insert rule => exact happend "-I" rfl (by decide) rule
  | delete => cases hbuilds
  | remove rule => cases hbuilds

/-! ### Names -/

theorem tknMap_eq_self_iff (s : String) : tknMap s = s ↔ s ∉ ["-I", "-A", "-N"] := by
  unfold tknMap
  split
  · decide
  · decide
  · decide
  · rename_i hI hA hN
    refine iff_of_true rfl ?_
    simp only [List.mem_cons, List.not_mem_nil, or_false, not_or]
    exact ⟨hI, hA, hN⟩

theorem chainName_ne {nic s : String} (h : ¬"FORWARD_".toList.isPrefixOf s.toList) : "FORWARD_" ++ nic ≠ s := by
  intro heq
  rw [← heq, String.toList_append] at h
  simp at h

theorem chainName_ne_forward (nic : String) : "FORWARD_" ++ nic ≠ "FORWARD" := chainName_ne (by decide)

theorem chainName_ne_docker (nic : String) : "FORWARD_" ++ nic ≠ "DOCKER-USER" := chainName_ne (by decide)

theorem chainName_injective {nic nic' : String} (h : "FORWARD_" ++ nic = "FORWARD_" ++ nic') : nic = nic' := by
  simpa using h

theorem standardTarget_chainName (nic : String) : standardTarget ("FORWARD_" ++ nic) = false := by
  rw [standardTarget, decide_eq_false_iff_not]
  simp only [List.mem_cons, List.not_mem_nil, not_or]
  refine ⟨?_, ?_, ?_, ?_, ?_, ?_, ?_, ?_, ?_, ?_, ?_, ?_, id⟩
  all_goals exact chainName_ne (by decide)

theorem tknMap_chainName (nic : String) : tknMap ("FORWARD_" ++ nic) = "FORWARD_" ++ nic := by
  rw [tknMap_eq_self_iff]
  simp only [List.mem_cons, List.not_mem_nil, not_or]
  refine ⟨?_, ?_, ?_, id⟩
  all_goals exact chainName_ne (by decide)

theorem tknMap_str (n : IPv4Network) : tknMap n.str = n.str := by
  have hslash : '/' ∈ n.str.toList := by simp [IPv4Network.str]
  rw [tknMap_eq_self_iff]
  simp only [List.mem_cons, List.not_mem_nil, not_or]
  refine ⟨?_, ?_, ?_, id⟩
  all_goals
    intro heq
    rw [heq] at hslash
    simp at hslash

/-! ### The commands of uno -/

section commands

variable (agent : UvnNetAgent)

def filterAppend (chain : String) (rule : Tokens) : IptablesCommand := ⟨"filter", chain, .append rule⟩

/-- The commands of an interface but the first one. -/
def forwardAdditions (docker : Bool) (nic : String) : List IptablesCommand :=
  let chain := "FORWARD_" ++ nic
  [filterAppend "FORWARD" ["-j", chain],
    filterAppend chain ["-o", nic, "-m", "conntrack", "--ctstate", "RELATED,ESTABLISHED", "-j", "ACCEPT"]] ++
  agent.subnets.map (fun subnet => filterAppend chain ["-s", subnet.str, "-i", nic, "-j", "ACCEPT"]) ++
  (if docker then agent.otherNics.map fun other =>
    ⟨"filter", "DOCKER-USER", .insert ["-i", nic, "-o", other, "-j", "ACCEPT"]⟩ else []) ++
  [filterAppend chain ["-i", nic, "-j", "DROP"], filterAppend chain ["-j", "RETURN"]]

/-- The commands of an interface. -/
def forwardCommands (docker : Bool) (nic : String) : List IptablesCommand :=
  ⟨"filter", "FORWARD_" ++ nic, .new⟩ :: forwardAdditions agent docker nic

theorem forwardRules_eq (docker : Bool) (nic : String) :
    agent.forwardRules docker nic = (forwardCommands agent docker nic).map tokens := by
  cases docker <;>
    simp [UvnNetAgent.forwardRules, forwardCommands, forwardAdditions, tokens, opTokens, filterAppend, Function.comp_def]

def masqueradeCommands (vpn : VpnNic) : List IptablesCommand :=
  (UvnNetAgent.sortNames agent.lans ++
    (UvnNetAgent.sortNames (agent.vpnInterfaces.map VpnNic.name)).filter (· ≠ vpn.name)).map fun nic =>
      ⟨"nat", "POSTROUTING", .append ["-s", vpn.subnet.str, "-o", nic, "-j", "MASQUERADE"]⟩

theorem masqueradeRules_eq (vpn : VpnNic) :
    agent.masqueradeRules vpn = (masqueradeCommands agent vpn).map tokens := by
  rw [UvnNetAgent.masqueradeRules, masqueradeCommands, List.map_map]
  rfl

/-- The interfaces, each with the commands that masquerade behind it. -/
def groups : List (String × List IptablesCommand) :=
  agent.lans.map (fun nic => (nic, [])) ++
    agent.vpnInterfaces.map fun vpn => (vpn.name, if vpn.masquerade then masqueradeCommands agent vpn else [])

/-- The commands with the identifiers under which they are logged. -/
def commands (docker : Bool) : List (String × IptablesCommand) :=
  ("forward_drop", ⟨"filter", "FORWARD", .setPolicy "DROP"⟩) :: ("tcp_pmtu", filterAppend "FORWARD" pmtuRule) ::
    (groups agent).flatMap fun g => (forwardCommands agent docker g.1 ++ g.2).map fun cmd => (g.1, cmd)

/-- The interfaces that are forwarded. -/
def nics : List String := agent.lans ++ agent.vpnInterfaces.map VpnNic.name

theorem map_fst_groups : (groups agent).map Prod.fst = nics agent := by
  rw [groups, nics, List.map_append, List.map_map, List.map_map]
  exact congrArg (· ++ _) (List.map_id _)

/-- The commands that are logged under an interface. -/
inductive GroupCommand (docker : Bool) (nic : String) : IptablesCommand → Prop where
  | new : GroupCommand docker nic ⟨"filter", "FORWARD_" ++ nic, .new⟩
  | jump : GroupCommand docker nic (filterAppend "FORWARD" ["-j", "FORWARD_" ++ nic])
  | own (rule : Tokens) (htarget : (Iptables.jump rule).all standardTarget)
      (hdrop : ∀ m, rule = ["-i", m, "-j", "DROP"] → m = nic)
      (hmap : tknMap nic = nic → rule.map tknMap = rule) :
      GroupCommand docker nic (filterAppend ("FORWARD_" ++ nic) rule)
  | docker (other : String) (hother : other ∈ nics agent) (hdocker : docker = true) :
      GroupCommand docker nic ⟨"filter", "DOCKER-USER", .insert ["-i", nic, "-o", other, "-j", "ACCEPT"]⟩
  | masquerade (subnet : IPv4Network) (other : String) (hother : other ∈ nics agent) :
      GroupCommand docker nic ⟨"nat", "POSTROUTING", .append ["-s", subnet.str, "-o", other, "-j", "MASQUERADE"]⟩

theorem groupCommand_of_mem_forwardAdditions {docker : Bool} {nic : String} {cmd : IptablesCommand}
    (h : cmd ∈ forwardAdditions agent docker nic) :
    GroupCommand agent docker nic cmd ∧ cmd.op ≠ .new ∧ cmd.table = "filter" := by
  simp only [forwardAdditions, List.mem_append, List.mem_cons, List.not_mem_nil, or_false, List.mem_map] at h
  obtain (((rfl | rfl) | ⟨subnet, -, rfl⟩) | hdocker) | rfl | rfl := h
  · exact ⟨.jump, nofun, rfl⟩
  · refine ⟨.own _ rfl (fun m hm => by simp at hm) fun hnic => ?_, nofun, rfl⟩
    rw [List.map_cons, List.map_cons, hnic]
    rfl
  · refine ⟨.own _ rfl (fun m hm => by simp at hm) fun hnic => ?_, nofun, rfl⟩
    rw [List.map_cons, List.map_cons, List.map_cons, List.map_cons, hnic, tknMap_str]
    rfl
  · by_cases hinstalled : docker = true
    · rw [if_pos hinstalled] at hdocker
      obtain ⟨other, hother, rfl⟩ := List.mem_map.mp hdocker
      rw [UvnNetAgent.otherNics, UvnNetAgent.sortNames, List.mem_mergeSort, List.mem_append, Or.comm,
        ← List.mem_append] at hother
      exact ⟨.docker other hother hinstalled, nofun, rfl⟩
    · rw [if_neg hinstalled] at hdocker
      cases hdocker
  · refine ⟨.own _ rfl (fun m hm => ?_) fun hnic => ?_, nofun, rfl⟩
    · simp only [List.cons.injEq, true_and, and_true] at hm
      exact hm.symm
    · rw [List.map_cons, List.map_cons, hnic]
      rfl
  · exact ⟨.own _ rfl (fun m hm => by simp at hm) fun _ => rfl, nofun, rfl⟩

theorem groupCommand_of_mem_snd {docker : Bool} {g : String × List IptablesCommand} {cmd : IptablesCommand}
    (hg : g ∈ groups agent) (h : cmd ∈ g.2) : GroupCommand agent docker g.1 cmd ∧ cmd.op ≠ .new ∧
      RuleTables.key cmd = ("nat", "POSTROUTING") := by
  rw [groups, List.mem_append, List.mem_map, List.mem_map] at hg
  obtain ⟨nic, -, rfl⟩ | ⟨vpn, -, rfl⟩ := hg
  · cases h
  · by_cases hmasquerade : vpn.masquerade = true
    · rw [if_pos hmasquerade] at h
      obtain ⟨other, hother, rfl⟩ := List.mem_map.mp h
      refine ⟨.masquerade _ other ?_, nofun, rfl⟩
      rw [List.mem_append, List.mem_filter, UvnNetAgent.sortNames, UvnNetAgent.sortNames, List.mem_mergeSort,
        List.mem_mergeSort] at hother
      exact List.mem_append.mpr (hother.imp_right And.left)
    · rw [if_neg hmasquerade] at h
      cases h

theorem groupCommand_of_mem {docker : Bool} {g : String × List IptablesCommand} {cmd : IptablesCommand}
    (hg : g ∈ groups agent) (h : cmd ∈ forwardCommands agent docker g.1 ++ g.2) : GroupCommand agent docker g.1 cmd := by
  rw [List.mem_append, forwardCommands, List.mem_cons] at h
  obtain (rfl | h) | h := h
  · exact .new
  · exact (groupCommand_of_mem_forwardAdditions agent h).1
  · exact (groupCommand_of_mem_snd agent hg h).1

theorem mem_commands {docker : Bool} {c : String × IptablesCommand} (h : c ∈ commands agent docker) :
    c = ("forward_drop", ⟨"filter", "FORWARD", .setPolicy "DROP"⟩) ∨ c = ("tcp_pmtu", filterAppend "FORWARD" pmtuRule) ∨
      c.1 ∈ nics agent ∧ GroupCommand agent docker c.1 c.2 := by
  rw [commands, List.mem_cons, List.mem_cons, List.mem_flatMap] at h
  refine h.imp_right (Or.imp_right ?_)
  rintro ⟨g, hg, hc⟩
  obtain ⟨cmd, hcmd, rfl⟩ := List.mem_map.mp hc
  rw [← map_fst_groups]
  exact ⟨List.mem_map_of_mem hg, groupCommand_of_mem agent hg hcmd⟩

variable {agent} {docker : Bool} {c : String × IptablesCommand}

theorem GroupCommand.builds {nic : String} {cmd : IptablesCommand} (h : GroupCommand agent docker nic cmd) :
    cmd.op.builds = true := by
  cases h <;> rfl

theorem builds_of_mem (h : c ∈ commands agent docker) : c.2.op.builds = true := by
  obtain rfl | rfl | ⟨-, hgroup⟩ := mem_commands agent h
  · rfl
  · rfl
  · exact hgroup.builds

theorem GroupCommand.delRule_eq {nic : String} {cmd : IptablesCommand} (h : GroupCommand agent docker nic cmd) :
    delRule (tokens cmd) = .ok (tokens (undo cmd)) := by
  refine delRule_tokens h.builds ?_ ?_ ?_
  · cases h with
    | new => exact tknMap_chainName nic
    | own => exact tknMap_chainName nic
    | jump => rfl
    | docker => rfl
    | masquerade => rfl
  · cases h <;> rfl
  · intro p hp
    cases h <;> cases hp

theorem delRule_of_mem (h : c ∈ commands agent docker) : delRule (tokens c.2) = .ok (tokens (undo c.2)) := by
  obtain rfl | rfl | ⟨-, hgroup⟩ := mem_commands agent h
  · rfl
  · rfl
  · exact hgroup.delRule_eq

end commands

/-! ### The commands of start -/

section start

variable {agent : UvnNetAgent} {docker : Bool}

abbrev runCommands (t : Iptables) (cmds : List IptablesCommand) : Option Iptables :=
  RuleTables.run jump standardTarget t cmds

def installCommand (s : UvnNet) (c : String × IptablesCommand) : Result UvnNet := install c.1 s (tokens c.2)

def logRule (rules : Dict String (List Tokens)) (c : String × IptablesCommand) : Dict String (List Tokens) :=
  rules.set c.1 ((rules.get? c.1).getD [] ++ [tokens c.2])

theorem installCommand_eq_ok_iff {s s' : UvnNet} {c : String × IptablesCommand} : installCommand s c = .ok s' ↔
    RuleTables.exec jump standardTarget s.tables c.2 = some s'.tables ∧ s'.rules = logRule s.rules c ∧
      s'.backup = s.backup := by
  rw [installCommand, install, Except.bind_eq_ok_iff]
  simp only [exec_tokens_eq_ok_iff]
  obtain ⟨tables', backup', rules'⟩ := s'
  constructor
  · rintro ⟨tables, hexec, heq⟩
    cases heq
    exact ⟨hexec, rfl, rfl⟩
  · rintro ⟨hexec, hrules, hbackup⟩
    refine ⟨tables', hexec, ?_⟩
    cases hrules
    cases hbackup
    rfl

theorem foldlM_installCommand_iff {l : List (String × IptablesCommand)} {s s' : UvnNet} :
    l.foldlM installCommand s = .ok s' ↔ runCommands s.tables (l.map Prod.snd) = some s'.tables ∧
      s'.rules = l.foldl logRule s.rules ∧ s'.backup = s.backup := by
  induction l generalizing s with
  | nil =>
    obtain ⟨tables, backup, rules⟩ := s
    obtain ⟨tables', backup', rules'⟩ := s'
    rw [List.foldlM_nil, Except.pure_eq_ok, Except.ok.injEq]
    constructor
    · intro h
      cases h
      exact ⟨rfl, rfl, rfl⟩
    · rintro ⟨htables, hrules, hbackup⟩
      cases hrules
      cases hbackup
      cases htables
      rfl
  | cons c rest ih =>
    rw [List.foldlM_cons, Except.bind_eq_ok_iff, List.map_cons, RuleTables.run_cons_eq_some_iff, List.foldl_cons]
    constructor
    · rintro ⟨s₁, hfirst, hrest⟩
      obtain ⟨hexec, hrules, hbackup⟩ := installCommand_eq_ok_iff.mp hfirst
      obtain ⟨hrun, hrules', hbackup'⟩ := ih.mp hrest
      exact ⟨⟨_, hexec, hrun⟩, by rw [hrules', hrules], hbackup'.trans hbackup⟩
    · rintro ⟨⟨t₁, hexec, hrun⟩, hrules, hbackup⟩
      exact ⟨⟨t₁, s.backup, logRule s.rules c⟩, installCommand_eq_ok_iff.mpr ⟨hexec, rfl, rfl⟩,
        ih.mpr ⟨hrun, hrules, hbackup⟩⟩

theorem dockerInstalled_eq (t : Iptables) :
    dockerInstalled t = (RuleTables.policyAt t ("filter", "DOCKER-USER")).isSome := by
  rw [Bool.eq_iff_iff, dockerInstalled, decide_eq_true_eq, RuleTables.mem_keys_iff_policyAt]

theorem dockerInstalled_run {nic : String} {t t' : Iptables} {cmds : List IptablesCommand}
    (hcmds : ∀ cmd ∈ cmds, GroupCommand agent docker nic cmd) (h : runCommands t cmds = some t') :
    dockerInstalled t' = dockerInstalled t := by
  rw [dockerInstalled_eq, dockerInstalled_eq, RuleTables.policyAt_run_of_kept h]
  intro cmd hcmd hkey
  cases hcmds cmd hcmd with
  | new => exact absurd (congrArg Prod.snd hkey) (chainName_ne_docker nic)
  | jump => exact absurd hkey (by simp [filterAppend])
  | own rule => exact absurd (congrArg Prod.snd hkey) (chainName_ne_docker nic)
  | docker other => exact ⟨by simp, by simp, by simp⟩
  | masquerade subnet other => exact absurd hkey (by simp)

theorem start_eq (s : UvnNet) : start agent s =
    (commands agent (dockerInstalled s.tables)).foldlM installCommand { s with backup := some s.tables } := by
  have hgroup (s : UvnNet) (g : String × List IptablesCommand) :
      (do let s ← iptablesForward agent s g.1; g.2.foldlM (fun s cmd => installCommand s (g.1, cmd)) s) =
        ((forwardCommands agent (dockerInstalled s.tables) g.1 ++ g.2).map fun cmd => (g.1, cmd)).foldlM installCommand
          s := by
    rw [List.foldlM_map, List.foldlM_append, iptablesForward, forwardRules_eq, List.foldlM_map]
    rfl
  have hgroups (s : UvnNet) : (do
        let s ← agent.lans.foldlM (iptablesForward agent) s
        agent.vpnInterfaces.foldlM (fun s vpn => do
          let s ← iptablesForward agent s vpn.name
          if vpn.masquerade then vpnMasquerade agent s vpn else .ok s) s) =
      (groups agent).foldlM (fun s g =>
        ((forwardCommands agent (dockerInstalled s.tables) g.1 ++ g.2).map fun cmd => (g.1, cmd)).foldlM installCommand
          s) s := by
    rw [groups, List.foldlM_append, List.foldlM_map]
    congr 1
    · refine Fold.foldlM_congr (fun s nic _ => ?_) s
      rw [← hgroup]
      exact (Except.bind_ok _).symm
    · funext s
      rw [List.foldlM_map]
      refine Fold.foldlM_congr (fun s vpn _ => ?_) s
      rw [← hgroup]
      congr 1
      funext s
      dsimp only
      by_cases hmasquerade : vpn.masquerade = true
      · rw [if_pos hmasquerade, if_pos hmasquerade, vpnMasquerade, masqueradeRules_eq, List.foldlM_map]
        rfl
      · rw [if_neg hmasquerade, if_neg hmasquerade]
        rfl
  have hkept {s s' : UvnNet} {c : String × IptablesCommand} (h : installCommand s c = .ok s')
      (hkey : ("filter", "DOCKER-USER") ≠ RuleTables.key c.2) : dockerInstalled s'.tables = dockerInstalled s.tables := by
    rw [dockerInstalled_eq, dockerInstalled_eq,
      RuleTables.policyAt_exec_of_ne (installCommand_eq_ok_iff.mp h).1 hkey]
  have hstart : start agent s = (do
      let s ← installCommand { s with backup := some s.tables } ("forward_drop", ⟨"filter", "FORWARD", .setPolicy "DROP"⟩)
      let s ← installCommand s ("tcp_pmtu", filterAppend "FORWARD" pmtuRule)
      let s ← agent.lans.foldlM (iptablesForward agent) s
      agent.vpnInterfaces.foldlM (fun s vpn => do
        let s ← iptablesForward agent s vpn.name
        if vpn.masquerade then vpnMasquerade agent s vpn else .ok s) s) := rfl
  rw [hstart, commands, List.foldlM_cons]
  cases hdrop : installCommand { s with backup := some s.tables }
      ("forward_drop", ⟨"filter", "FORWARD", .setPolicy "DROP"⟩) with
  | error e => rfl
  | ok s₁ =>
    rw [Except.ok_bind, Except.ok_bind, List.foldlM_cons]
    cases hpmtu : installCommand s₁ ("tcp_pmtu", filterAppend "FORWARD" pmtuRule) with
    | error e => rfl
    | ok s₂ =>
      have hdrop' := hkept hdrop (by decide)
      have hdocker : dockerInstalled s₂.tables = dockerInstalled s.tables := (hkept hpmtu (by decide)).trans hdrop'
      rw [Except.ok_bind, Except.ok_bind, hgroups, Fold.foldlM_flatMap]
      refine Fold.foldlM_congr_of_invariant (P := fun s' => dockerInstalled s'.tables = dockerInstalled s.tables)
        (fun s' hs' g _ => ?_) (fun s' s'' g hg hs' h => ?_) hdocker
      · rw [hs']
      · obtain ⟨hrun, -, -⟩ := foldlM_installCommand_iff.mp h
        rw [List.map_map, Function.comp_def, List.map_id'] at hrun
        exact (dockerInstalled_run (fun cmd hcmd => groupCommand_of_mem agent hg hcmd) hrun).trans hs'

end start

/-! ### The commands of stop -/

section stop

variable {agent : UvnNetAgent} {docker : Bool}

/-- What the log `rules` of commands takes down, in order. -/
def stopCommands (l : List (String × IptablesCommand)) : List IptablesCommand :=
  ((Dict.group l).entries.flatMap fun e => e.2.reverse).map undo

theorem foldl_logRule (l : List (String × IptablesCommand)) :
    l.foldl logRule ∅ = (Dict.group l).map (List.map tokens) := by
  rw [← Dict.group_map, Dict.group, List.foldl_map]
  rfl

theorem group_perm (l : List (String × IptablesCommand)) :
    ((Dict.group l).entries.flatMap fun e => e.2.reverse).Perm (l.map Prod.snd) :=
  (List.Perm.flatMap_left _ fun e _ => List.reverse_perm e.2).trans (Dict.group_perm l)

theorem stopCommands_perm (l : List (String × IptablesCommand)) :
    (stopCommands l).Perm (l.map fun c => undo c.2) := by
  have h := (group_perm l).map undo
  rwa [List.map_map] at h

theorem stop_eq_ok_iff {s : UvnNet} {t₂ : Iptables} (hbackup : s.backup.isSome)
    (hrules : s.rules = (commands agent docker).foldl logRule ∅) :
    stop s = .ok t₂ ↔ runCommands s.tables (stopCommands (commands agent docker)) = some t₂ := by
  obtain ⟨b, hb⟩ := Option.isSome_iff_exists.mp hbackup
  have hstop : stop s = ((Dict.group (commands agent docker)).entries.flatMap fun e => e.2.reverse).foldlM
      (fun t cmd => do
        let rule ← delRule (tokens cmd)
        Iptables.exec t rule) s.tables := by
    rw [stop, hb, hrules, foldl_logRule, Dict.map, List.foldlM_map, Fold.foldlM_flatMap]
    refine Fold.foldlM_congr (fun t e _ => ?_) s.tables
    rw [← List.map_reverse, List.foldlM_map]
  have hmem : ∀ cmd ∈ (Dict.group (commands agent docker)).entries.flatMap fun e => e.2.reverse,
      delRule (tokens cmd) = .ok (tokens (undo cmd)) := by
    intro cmd hcmd
    obtain ⟨c, hc, rfl⟩ := List.mem_map.mp ((group_perm _).mem_iff.mp hcmd)
    exact delRule_of_mem hc
  rw [hstop, stopCommands]
  generalize s.tables = t
  generalize ((Dict.group (commands agent docker)).entries.flatMap fun e => e.2.reverse) = l at hmem
  induction l generalizing t with
  | nil => simp [Except.pure_eq_ok, RuleTables.run]
  | cons cmd rest ih =>
    rw [List.foldlM_cons, List.map_cons, RuleTables.run_cons_eq_some_iff, Except.bind_eq_ok_iff,
      hmem cmd List.mem_cons_self]
    simp only [Except.ok_bind, exec_tokens_eq_ok_iff]
    exact exists_congr fun t' => and_congr_right fun _ => ih t' fun cmd hcmd => hmem cmd (List.mem_cons_of_mem _ hcmd)

end stop

end UvnNet

end Uno
