import Uno.Agent.FirewallCommands

/-!
# Start and stop of the firewall

What the commands of start leave in the tables, and what is left after the commands of stop. Start fails with two
interfaces of one name (`UvnNet.run_commands_iff`); otherwise each table is as it was before if and only if the rules
that uno appends come off where they were put (`UvnNet.start_stop_iff`).
-/

namespace Uno

namespace UvnNet

open Iptables

/-! ### Tables without the chains of uno -/

section tables

open RuleTables RuleList

abbrev forwardKey : String × String := ("filter", "FORWARD")

abbrev postroutingKey : String × String := ("nat", "POSTROUTING")

abbrev dockerKey : String × String := ("filter", "DOCKER-USER")

abbrev chainKey (nic : String) : String × String := ("filter", "FORWARD_" ++ nic)

variable (agent : UvnNetAgent)

/-- Tables with the built-in chains, and without the chains of uno: they are not there, and no rule names them. -/
structure WithoutUno (t : Iptables) : Prop where
  forward : (policyAt t forwardKey).any Option.isSome
  postrouting : (policyAt t postroutingKey).any Option.isSome
  chains : ∀ nic ∈ nics agent, policyAt t (chainKey nic) = none
  targets : ∀ nic ∈ nics agent, ∀ c, ∀ r ∈ rulesAt t ("filter", c), jump r ≠ some ("FORWARD_" ++ nic)

/-- The tables are those before, but for the policy of `FORWARD`. -/
structure Restored (t t₂ : Iptables) : Prop where
  chains : ∀ k ≠ forwardKey, t₂.get? k = t.get? k
  forward : (t₂.get? forwardKey).map RuleChain.rules = (t.get? forwardKey).map RuleChain.rules

/-- The rules that masquerade. -/
def masquerades : List Tokens := (groups agent).flatMap fun g => g.2.filterMap fun cmd => cmd.op.added

/-- Each interface is there once, and none is named as the flag of a command. Rules that are appended to a chain come
off again as if they had been removed from its end. -/
structure Restorable (t : Iptables) : Prop where
  nodup : (nics agent).Nodup
  names : ∀ nic ∈ nics agent, nic ∉ ["-I", "-A", "-N"]
  forward : left (rulesAt t forwardKey ++ [pmtuRule]) [pmtuRule] = rulesAt t forwardKey
  postrouting : left (rulesAt t postroutingKey ++ masquerades agent) (masquerades agent) = rulesAt t postroutingKey

variable {agent} {docker : Bool} {t t₁ t₂ : Iptables} {cmd : IptablesCommand}

theorem run_groups (G : List (String × List IptablesCommand)) (hG : ∀ g ∈ G, g ∈ groups agent)
    (hnodup : (G.map Prod.fst).Nodup) (hforward : (policyAt t forwardKey).isSome)
    (hpostrouting : (policyAt t postroutingKey).isSome) (hdocker : docker = true → (policyAt t dockerKey).isSome)
    (hchains : ∀ g ∈ G, policyAt t (chainKey g.1) = none) :
    ∃ t₁, runCommands t (G.flatMap fun g => forwardCommands agent docker g.1 ++ g.2) = some t₁ := by
  induction G generalizing t with
  | nil => exact ⟨t, rfl⟩
  | cons g G ih =>
    rw [List.map_cons, List.nodup_cons] at hnodup
    obtain ⟨t', hexec⟩ : ∃ t', RuleTables.exec jump standardTarget t ⟨"filter", "FORWARD_" ++ g.1, .new⟩ = some t' := by
      apply exec_isSome
      rw [allowed, Option.isNone_iff_eq_none]
      exact hchains g List.mem_cons_self
    have hnew : policyAt t' (chainKey g.1) = some none := policyAt_exec_self hexec
    have hother : ∀ k ≠ chainKey g.1, policyAt t' k = policyAt t k := fun k hk => policyAt_exec_of_ne hexec hk
    have hforward' : (policyAt t' forwardKey).isSome := by
      rwa [hother _ fun h => chainName_ne_forward g.1 (congrArg Prod.snd h).symm]
    have hpostrouting' : (policyAt t' postroutingKey).isSome := by
      rwa [hother _ fun h => absurd (congrArg Prod.fst h) (by simp)]
    have hdocker' : docker = true → (policyAt t' dockerKey).isSome := by
      intro hinstalled
      rw [hother _ fun h => chainName_ne_docker g.1 (congrArg Prod.snd h).symm]
      exact hdocker hinstalled
    have hadditions : ∀ cmd ∈ forwardAdditions agent docker g.1 ++ g.2, (policyAt t' (key cmd)).isSome ∧
        ∃ r, (cmd.op = .append r ∨ cmd.op = .insert r) ∧ targetKnown jump standardTarget t' cmd.table r = true := by
      intro cmd hcmd
      have hgroup : GroupCommand agent docker g.1 cmd ∧ cmd.op ≠ .new := by
        rw [List.mem_append] at hcmd
        obtain hcmd | hcmd := hcmd
        · have h := groupCommand_of_mem_forwardAdditions agent hcmd
          exact ⟨h.1, h.2.1⟩
        · obtain ⟨h, hnew, -⟩ := groupCommand_of_mem_snd agent (hG g List.mem_cons_self) hcmd
          exact ⟨h, hnew⟩
      obtain ⟨hgroup, hop⟩ := hgroup
      cases hgroup with
      | new => exact absurd rfl hop
      | jump =>
        refine ⟨hforward', _, .inl rfl, ?_⟩
        have hkey : chainKey g.1 ∈ t'.keys := mem_keys_iff_policyAt.mpr (by rw [hnew]; rfl)
        exact decide_eq_true (.inr hkey)
      | own rule htarget =>
        refine ⟨by rw [show key (filterAppend _ rule) = chainKey g.1 from rfl, hnew]; rfl, rule, .inl rfl, ?_⟩
        rw [targetKnown]
        cases hjump : jump rule with
        | none => rfl
        | some target =>
          rw [hjump, Option.all_some] at htarget
          exact decide_eq_true (.inl htarget)
      | docker other hother hinstalled => exact ⟨hdocker' hinstalled, _, .inr rfl, by rfl⟩
      | masquerade subnet other => exact ⟨hpostrouting', _, .inl rfl, by rfl⟩
    obtain ⟨t₁, hrun₁, hpolicy₁⟩ := run_additions t' hadditions
    have hrest : ∃ t₂, runCommands t₁ (G.flatMap fun g => forwardCommands agent docker g.1 ++ g.2) = some t₂ := by
      refine ih (fun g' hg' => hG g' (List.mem_cons_of_mem _ hg')) hnodup.2 ?_ ?_ ?_ ?_
      · rwa [hpolicy₁]
      · rwa [hpolicy₁]
      · rwa [hpolicy₁]
      · intro g' hg'
        rw [hpolicy₁, hother _ ?_, hchains g' (List.mem_cons_of_mem _ hg')]
        intro h
        refine hnodup.1 (List.mem_map.mpr ⟨g', hg', ?_⟩)
        exact chainName_injective (congrArg Prod.snd h)
    obtain ⟨t₂, hrun₂⟩ := hrest
    exact ⟨t₂, run_cons_eq_some_iff.mpr ⟨t', hexec, run_append_eq_some_iff.mpr ⟨t₁, hrun₁, hrun₂⟩⟩⟩

theorem map_snd_commands : (commands agent docker).map Prod.snd =
    ⟨"filter", "FORWARD", .setPolicy "DROP"⟩ :: filterAppend "FORWARD" pmtuRule ::
      (groups agent).flatMap fun g => forwardCommands agent docker g.1 ++ g.2 := by
  rw [commands, List.map_cons, List.map_cons, List.map_flatMap]
  congr 3
  funext g
  rw [List.map_map, Function.comp_def, List.map_id']

/-- The commands of start succeed if and only if no two interfaces have one name. -/
theorem run_commands_iff (ht : WithoutUno agent t) (hdocker : docker = true → (policyAt t dockerKey).isSome) :
    (∃ t₁, runCommands t ((commands agent docker).map Prod.snd) = some t₁) ↔ (nics agent).Nodup := by
  rw [map_snd_commands]
  constructor
  · rintro ⟨t₁, hrun⟩
    rw [← map_snd_commands] at hrun
    have hbuilds : ∀ cmd ∈ (commands agent docker).map Prod.snd, cmd.op.builds := by
      intro cmd hcmd
      obtain ⟨c, hc, rfl⟩ := List.mem_map.mp hcmd
      exact builds_of_mem hc
    have hpairwise := (new_of_run hrun hbuilds).2
    rw [map_snd_commands, List.pairwise_cons, List.pairwise_cons, List.pairwise_flatMap] at hpairwise
    rw [← map_fst_groups, List.Nodup, List.pairwise_map]
    refine hpairwise.2.2.2.imp fun {g g'} h heq => ?_
    have hnew := h _ (List.mem_append_left _ List.mem_cons_self) _ (List.mem_append_left _ List.mem_cons_self) rfl
    exact hnew.1 (by rw [heq])
  · intro hnodup
    obtain ⟨t', hdrop⟩ : ∃ t', RuleTables.exec jump standardTarget t ⟨"filter", "FORWARD", .setPolicy "DROP"⟩ = some t' :=
      exec_isSome ht.forward
    have hforward' : policyAt t' forwardKey = some (some "DROP") := policyAt_exec_self hdrop
    have hother' : ∀ k ≠ forwardKey, policyAt t' k = policyAt t k := fun k hk => policyAt_exec_of_ne hdrop hk
    obtain ⟨t'', hpmtu, hpolicy⟩ : ∃ t'', runCommands t' [filterAppend "FORWARD" pmtuRule] = some t'' ∧
        ∀ k, policyAt t'' k = policyAt t' k := run_additions t' fun cmd hcmd => by
        rw [List.mem_singleton.mp hcmd]
        exact ⟨by rw [show key (filterAppend "FORWARD" pmtuRule) = forwardKey from rfl, hforward']; rfl, pmtuRule,
          .inl rfl, by rfl⟩
    have hgroups : ∃ t₁, runCommands t'' ((groups agent).flatMap fun g => forwardCommands agent docker g.1 ++ g.2) =
        some t₁ := by
      refine run_groups (groups agent) (fun g hg => hg) (by rwa [map_fst_groups]) ?_ ?_ ?_ ?_
      · rw [hpolicy, hforward']
        rfl
      · rw [hpolicy, hother' _ (by decide)]
        exact Option.isSome_of_any ht.postrouting
      · rw [hpolicy, hother' _ (by decide)]
        exact hdocker
      · intro g hg
        rw [hpolicy, hother' _ fun h => chainName_ne_forward g.1 (congrArg Prod.snd h)]
        refine ht.chains g.1 ?_
        rw [← map_fst_groups]
        exact List.mem_map_of_mem hg
    obtain ⟨t₁, hrun⟩ := hgroups
    exact ⟨t₁, run_cons_eq_some_iff.mpr ⟨t', hdrop, run_append_eq_some_iff.mpr ⟨t'', hpmtu, hrun⟩⟩⟩

/-! ### What start leaves -/

theorem builds_commands : ∀ cmd ∈ (commands agent docker).map Prod.snd, cmd.op.builds := by
  intro cmd hcmd
  obtain ⟨c, hc, rfl⟩ := List.mem_map.mp hcmd
  exact builds_of_mem hc

theorem op_of_key (h : cmd ∈ (commands agent docker).map Prod.snd) :
    if key cmd = dockerKey then ∃ r, cmd.op = .insert r else ∀ r, cmd.op ≠ .insert r := by
  obtain ⟨c, hc, rfl⟩ := List.mem_map.mp h
  obtain rfl | rfl | ⟨-, hgroup⟩ := mem_commands agent hc
  · exact fun _ h => by cases h
  · exact fun _ h => by cases h
  · generalize c.2 = cmd at hgroup
    cases hgroup with
    | new => rw [if_neg fun h => chainName_ne_docker _ (congrArg Prod.snd h)]; exact fun _ h => by cases h
    | own => rw [if_neg fun h => chainName_ne_docker _ (congrArg Prod.snd h)]; exact fun _ h => by cases h
    | jump => rw [if_neg (by simp [filterAppend])]; exact fun _ h => by cases h
    | docker => exact ⟨_, rfl⟩
    | masquerade => rw [if_neg (by simp)]; exact fun _ h => by cases h

/-- The rules of uno in a chain. -/
abbrev added (agent : UvnNetAgent) (docker : Bool) (k : String × String) : List Tokens :=
  additions k ((commands agent docker).map Prod.snd)

theorem added_forward : ∃ jumps : List Tokens, added agent docker forwardKey = pmtuRule :: jumps ∧
    ∀ r ∈ jumps, ∃ nic ∈ nics agent, r = ["-j", "FORWARD_" ++ nic] := by
  refine ⟨additions forwardKey ((groups agent).flatMap fun g => forwardCommands agent docker g.1 ++ g.2), ?_, ?_⟩
  · rw [added, map_snd_commands]
    rfl
  · intro r hr
    obtain ⟨cmd, hcmd, hkey, hadded⟩ := mem_additions_iff.mp hr
    obtain ⟨g, hg, hcmd⟩ := List.mem_flatMap.mp hcmd
    have hnic : g.1 ∈ nics agent := by
      rw [← map_fst_groups]
      exact List.mem_map_of_mem hg
    cases groupCommand_of_mem agent hg hcmd with
    | new => cases hadded
    | jump => exact ⟨g.1, hnic, (Option.some.inj hadded).symm⟩
    | own => exact absurd (congrArg Prod.snd hkey) (chainName_ne_forward g.1)
    | docker => exact absurd hkey (by simp)
    | masquerade => exact absurd hkey (by simp)

theorem added_postrouting : added agent docker postroutingKey = masquerades agent := by
  have hforward (nic : String) : additions postroutingKey (forwardCommands agent docker nic) = [] := by
    rw [List.eq_nil_iff_forall_not_mem]
    intro r hr
    obtain ⟨cmd, hcmd, hkey, hadded⟩ := mem_additions_iff.mp hr
    have htable : cmd.table = "filter" := by
      rw [forwardCommands, List.mem_cons] at hcmd
      obtain rfl | hcmd := hcmd
      · rfl
      · exact (groupCommand_of_mem_forwardAdditions agent hcmd).2.2
    rw [key, htable] at hkey
    exact absurd (congrArg Prod.fst hkey) (by simp)
  have hmasquerade : ∀ g ∈ groups agent, additions postroutingKey (forwardCommands agent docker g.1 ++ g.2) =
      g.2.filterMap fun cmd => cmd.op.added := by
    intro g hg
    rw [additions, List.filterMap_append]
    refine (congrArg (· ++ _) (hforward g.1)).trans ?_
    refine List.filterMap_congr fun cmd hcmd => ?_
    rw [if_pos (@groupCommand_of_mem_snd agent docker g cmd hg hcmd).2.2]
  rw [added, map_snd_commands]
  show additions postroutingKey ((groups agent).flatMap fun g => forwardCommands agent docker g.1 ++ g.2) = _
  rw [additions, List.filterMap_flatMap, masquerades]
  exact List.flatMap_congr hmasquerade

theorem added_other {k : String × String} (hforward : k ≠ forwardKey) (hpostrouting : k ≠ postroutingKey)
    (hdocker : k ≠ dockerKey) (hchains : ∀ nic ∈ nics agent, k ≠ chainKey nic) :
    ∀ cmd ∈ (commands agent docker).map Prod.snd, key cmd ≠ k := by
  intro cmd hcmd hkey
  obtain ⟨c, hc, rfl⟩ := List.mem_map.mp hcmd
  obtain rfl | rfl | ⟨hnic, hgroup⟩ := mem_commands agent hc
  · exact hforward hkey.symm
  · exact hforward hkey.symm
  · generalize c.2 = cmd at hgroup hkey
    cases hgroup with
    | new => exact hchains _ hnic hkey.symm
    | own => exact hchains _ hnic hkey.symm
    | jump => exact hforward hkey.symm
    | docker => exact hdocker hkey.symm
    | masquerade => exact hpostrouting hkey.symm

theorem policyAt_chain (hrun : runCommands t ((commands agent docker).map Prod.snd) = some t₁) {nic : String}
    (hnic : nic ∈ nics agent) : policyAt t₁ (chainKey nic) = some none := by
  refine policyAt_run_settled hrun (fun cmd hcmd hkey => ?_) (.inr ?_)
  · obtain ⟨c, hc, rfl⟩ := List.mem_map.mp hcmd
    have hbuilds := builds_of_mem hc
    refine ⟨?_, fun _ => rfl, ?_⟩
    · intro hop
      rw [hop] at hbuilds
      cases hbuilds
    · intro p hop
      obtain rfl | rfl | ⟨-, hgroup⟩ := mem_commands agent hc
      · exact absurd (congrArg Prod.snd hkey).symm (chainName_ne_forward nic)
      · cases hop
      · generalize c.2 = cmd at hgroup hop
        cases hgroup <;> cases hop
  · rw [← map_fst_groups] at hnic
    obtain ⟨g, hg, rfl⟩ := List.mem_map.mp hnic
    refine ⟨⟨"filter", "FORWARD_" ++ g.1, .new⟩, ?_, rfl, .inl rfl⟩
    rw [map_snd_commands]
    refine List.mem_cons_of_mem _ (List.mem_cons_of_mem _ (List.mem_flatMap.mpr ⟨g, hg, ?_⟩))
    exact List.mem_append_left _ List.mem_cons_self

/-! ### What stop removes -/

theorem map_tknMap_of_mem (hnames : ∀ nic ∈ nics agent, tknMap nic = nic) {c : String × IptablesCommand}
    (hc : c ∈ commands agent docker) {r : Tokens} (hr : c.2.op.added = some r) : r.map tknMap = r := by
  obtain rfl | rfl | ⟨hnic, hgroup⟩ := mem_commands agent hc
  · cases hr
  · cases hr
    rfl
  · generalize c.2 = cmd at hgroup hr
    cases hgroup with
    | new => cases hr
    | jump =>
      cases hr
      rw [List.map_cons, List.map_cons, tknMap_chainName]
      rfl
    | own rule _ _ hmap =>
      cases hr
      exact hmap (hnames _ hnic)
    | docker other hother =>
      cases hr
      rw [List.map_cons, List.map_cons, List.map_cons, List.map_cons, hnames _ hnic, hnames _ hother]
      rfl
    | masquerade subnet other hother =>
      cases hr
      rw [List.map_cons, List.map_cons, List.map_cons, List.map_cons, hnames _ hother, tknMap_str]
      rfl

theorem removed_undo (h : cmd.op.builds) : (undo cmd).op.removed = cmd.op.added.map (List.map tknMap) := by
  rw [undo]
  cases hop : cmd.op with
  | remove r =>
    rw [hop] at h
    cases h
  | setPolicy p => rfl
  | new => rfl
  | delete => rfl
  | append r => rfl
  | insert r => rfl

theorem undo_eq_delete (h : (undo cmd).op = .delete) (hbuilds : cmd.op.builds) : cmd.op = .new := by
  rw [undo] at h
  cases hop : cmd.op <;> simp_all [ChainOp.builds]

/-- What is removed from a chain is what was added to it, but for names that are taken for flags. -/
theorem removals_stopCommands (k : String × String) : (removals k (stopCommands (commands agent docker))).Perm
    ((added agent docker k).map (List.map tknMap)) := by
  have hperm : (removals k (stopCommands (commands agent docker))).Perm
      (removals k (((commands agent docker).map Prod.snd).map undo)) := by
    rw [List.map_map]
    exact (stopCommands_perm _).filterMap _
  refine hperm.trans (List.Perm.of_eq ?_)
  rw [added, removals, additions, List.filterMap_map, List.map_filterMap]
  refine List.filterMap_congr fun cmd hcmd => ?_
  show (if key cmd = k then (undo cmd).op.removed else none) = _
  rw [removed_undo (builds_commands cmd hcmd)]
  by_cases hkey : key cmd = k
  · rw [if_pos hkey, if_pos hkey]
  · rw [if_neg hkey, if_neg hkey]
    rfl

theorem map_added (hnames : ∀ nic ∈ nics agent, tknMap nic = nic) (k : String × String) :
    (added agent docker k).map (List.map tknMap) = added agent docker k := by
  refine (List.map_congr_left fun r hr => ?_).trans (List.map_id _)
  obtain ⟨cmd, hcmd, -, hadded⟩ := mem_additions_iff.mp hr
  obtain ⟨c, hc, rfl⟩ := List.mem_map.mp hcmd
  exact map_tknMap_of_mem hnames hc hadded

theorem mem_stopCommands (h : cmd ∈ stopCommands (commands agent docker)) : ∃ c ∈ commands agent docker, undo c.2 = cmd :=
  List.mem_map.mp ((stopCommands_perm _).mem_iff.mp h)

theorem tearsDown_stopCommands : ∀ cmd ∈ stopCommands (commands agent docker), cmd.op.tearsDown := by
  intro cmd hcmd
  obtain ⟨c, hc, rfl⟩ := mem_stopCommands hcmd
  have hbuilds := builds_of_mem hc
  rw [undo]
  cases hop : c.2.op <;> simp_all [ChainOp.builds, ChainOp.tearsDown]

theorem eq_new_of_mem {c : String × IptablesCommand} (hc : c ∈ commands agent docker) (hnew : c.2.op = .new) :
    c.2 = ⟨"filter", "FORWARD_" ++ c.1, .new⟩ := by
  obtain rfl | rfl | ⟨-, hgroup⟩ := mem_commands agent hc
  · cases hnew
  · cases hnew
  · generalize c.2 = cmd at hgroup hnew
    cases hgroup with
    | new => rfl
    | jump => cases hnew
    | own => cases hnew
    | docker => cases hnew
    | masquerade => cases hnew

theorem foreign_commands {c c' : String × IptablesCommand} (hc : c ∈ commands agent docker)
    (hc' : c' ∈ commands agent docker) (hne : c.1 ≠ c'.1) (hnew : c.2.op = .new) :
    key c.2 ≠ key c'.2 ∧ ∀ r, c'.2.op.added = some r → jump r ≠ some c.2.chain := by
  have htarget {target : String} (h : standardTarget target = true) : target ≠ "FORWARD_" ++ c.1 := by
    intro heq
    rw [heq, standardTarget_chainName] at h
    cases h
  rw [eq_new_of_mem hc hnew]
  obtain rfl | rfl | ⟨-, hgroup⟩ := mem_commands agent hc'
  · exact ⟨fun h => chainName_ne_forward _ (congrArg Prod.snd h), nofun⟩
  · refine ⟨fun h => chainName_ne_forward _ (congrArg Prod.snd h), fun r hr hjump => ?_⟩
    cases hr
    exact htarget (by decide) (Option.some.inj hjump)
  · generalize c'.2 = cmd at hgroup
    cases hgroup with
    | new => exact ⟨fun h => hne (chainName_injective (congrArg Prod.snd h)), nofun⟩
    | jump =>
      refine ⟨fun h => chainName_ne_forward _ (congrArg Prod.snd h), fun r hr hjump => ?_⟩
      cases hr
      exact hne (chainName_injective (Option.some.inj hjump)).symm
    | own rule hstandard =>
      refine ⟨fun h => hne (chainName_injective (congrArg Prod.snd h)), fun r hr hjump => ?_⟩
      cases hr
      rw [hjump, Option.all_some] at hstandard
      exact htarget hstandard rfl
    | docker other =>
      refine ⟨fun h => chainName_ne_docker _ (congrArg Prod.snd h), fun r hr hjump => ?_⟩
      cases hr
      exact htarget (by decide) (Option.some.inj hjump)
    | masquerade subnet other =>
      refine ⟨fun h => absurd (congrArg Prod.fst h) (by simp), fun r hr hjump => ?_⟩
      cases hr
      exact htarget (by decide) (Option.some.inj hjump)

theorem order_stopCommands (hnames : ∀ nic ∈ nics agent, tknMap nic = nic)
    (hrun : runCommands t ((commands agent docker).map Prod.snd) = some t₁) :
    (stopCommands (commands agent docker)).Pairwise fun a b => a.op = .delete →
      key a ≠ key b ∧ ∀ r, b.op = .remove r → b.table = a.table → jump r ≠ some a.chain := by
  have hpairwise := (new_of_run hrun builds_commands).2
  -- The same of commands that build, where the rules are those that are added.
  have hundo {c c' : String × IptablesCommand} (hc : c ∈ commands agent docker) (hc' : c' ∈ commands agent docker)
      (h : c.2.op = .new → key c.2 ≠ key c'.2 ∧
        ∀ r, c'.2.op.added = some r → c'.2.table = c.2.table → jump r ≠ some c.2.chain) :
      (undo c.2).op = .delete → key (undo c.2) ≠ key (undo c'.2) ∧
        ∀ r, (undo c'.2).op = .remove r → (undo c'.2).table = (undo c.2).table → jump r ≠ some (undo c.2).chain := by
    intro hdelete
    obtain ⟨hkey, htarget⟩ := h (undo_eq_delete hdelete (builds_of_mem hc))
    refine ⟨hkey, fun r hr htable => ?_⟩
    rw [← ChainOp.removed_eq_some_iff, removed_undo (builds_of_mem hc'), Option.map_eq_some_iff] at hr
    obtain ⟨r', hr', rfl⟩ := hr
    rw [map_tknMap_of_mem hnames hc' hr']
    exact htarget r' hr' htable
  have hmem {k : String} {cmds : List IptablesCommand} {cmd : IptablesCommand}
      (he : (k, cmds) ∈ (Dict.group (commands agent docker)).entries) (hcmd : cmd ∈ cmds) :
      (k, cmd) ∈ commands agent docker := by
    rw [Dict.mem_group (Dict.get?_eq_some_iff.mpr he), List.mem_map] at hcmd
    obtain ⟨c, hc, rfl⟩ := hcmd
    obtain ⟨hc, hk⟩ := List.mem_filter.mp hc
    rw [← of_decide_eq_true hk]
    exact hc
  rw [stopCommands, List.pairwise_map, List.pairwise_flatMap]
  constructor
  · rintro ⟨k, cmds⟩ he
    rw [List.pairwise_reverse]
    have hsub : cmds.Sublist ((commands agent docker).map Prod.snd) := by
      rw [Dict.mem_group (Dict.get?_eq_some_iff.mpr he)]
      exact List.filter_sublist.map _
    refine (hpairwise.sublist hsub).imp_of_mem fun {b a} hb ha h => ?_
    refine hundo (hmem he ha) (hmem he hb) fun hnew => ?_
    obtain ⟨hkey, htarget⟩ := h hnew
    refine ⟨hkey.symm, fun r hr htable hjump => ?_⟩
    have hstandard := htarget r hr htable hjump
    have hchain : a = ⟨"filter", "FORWARD_" ++ k, .new⟩ := eq_new_of_mem (hmem he ha) hnew
    rw [hchain, standardTarget_chainName] at hstandard
    cases hstandard
  · have hkeys := (Dict.group (commands agent docker)).nodup
    rw [List.Nodup, List.pairwise_map] at hkeys
    refine hkeys.imp_of_mem fun {e e'} he he' hne a ha b hb => ?_
    refine hundo (hmem he (List.mem_reverse.mp ha)) (hmem he' (List.mem_reverse.mp hb)) fun hnew => ?_
    obtain ⟨hkey, htarget⟩ :=
      foreign_commands (hmem he (List.mem_reverse.mp ha)) (hmem he' (List.mem_reverse.mp hb)) hne hnew
    exact ⟨hkey, fun r hr _ => htarget r hr⟩

theorem eq_setPolicy_of_mem {c : String × IptablesCommand} (hc : c ∈ commands agent docker) {p : String}
    (hop : c.2.op = .setPolicy p) : c.2 = ⟨"filter", "FORWARD", .setPolicy "DROP"⟩ := by
  obtain rfl | rfl | ⟨-, hgroup⟩ := mem_commands agent hc
  · rfl
  · cases hop
  · generalize c.2 = cmd at hgroup hop
    cases hgroup <;> cases hop

theorem policyAt_forward (hrun : runCommands t ((commands agent docker).map Prod.snd) = some t₁) :
    policyAt t₁ forwardKey = some (some "DROP") := by
  refine policyAt_run_settled hrun (fun cmd hcmd hkey => ?_)
    (.inr ⟨⟨"filter", "FORWARD", .setPolicy "DROP"⟩, List.mem_cons_self, rfl, .inr ⟨_, rfl⟩⟩)
  obtain ⟨c, hc, rfl⟩ := List.mem_map.mp hcmd
  have hbuilds := builds_of_mem hc
  refine ⟨?_, ?_, ?_⟩
  · intro hop
    rw [hop] at hbuilds
    cases hbuilds
  · intro hop
    rw [eq_new_of_mem hc hop] at hkey
    exact absurd (congrArg Prod.snd hkey) (chainName_ne_forward c.1)
  · intro p hop
    rw [eq_setPolicy_of_mem hc hop] at hop
    cases hop
    rfl

theorem undoes_stopCommands (ht : WithoutUno agent t) (hnames : ∀ nic ∈ nics agent, tknMap nic = nic)
    (hrun : runCommands t ((commands agent docker).map Prod.snd) = some t₁) :
    Undoes jump t₁ (stopCommands (commands agent docker)) := by
  have hcount (k : String × String) (r : Tokens) :
      times (removals k (stopCommands (commands agent docker))) r = times (added agent docker k) r := by
    rw [times_perm (removals_stopCommands k), map_added hnames]
  have hrules := times_rulesAt_run hrun builds_commands
  refine ⟨tearsDown_stopCommands, ?_, ?_, ?_, order_stopCommands hnames hrun⟩
  · intro cmd hcmd p hop
    obtain ⟨c, hc, rfl⟩ := mem_stopCommands hcmd
    have hset : ∃ p', c.2.op = .setPolicy p' := by
      rw [undo] at hop
      cases hc' : c.2.op <;> simp_all
    obtain ⟨p', hset⟩ := hset
    rw [eq_setPolicy_of_mem hc hset]
    show (policyAt t₁ forwardKey).any Option.isSome = true
    rw [policyAt_forward hrun]
    rfl
  · intro k r
    rw [hcount, hrules]
    exact Nat.le_add_left _ _
  · intro cmd hcmd hop
    obtain ⟨c, hc, rfl⟩ := mem_stopCommands hcmd
    have hchain := eq_new_of_mem hc (undo_eq_delete hop (builds_of_mem hc))
    have hnic : c.1 ∈ nics agent := by
      obtain rfl | rfl | ⟨hnic, -⟩ := mem_commands agent hc
      · cases hop
      · cases hop
      · exact hnic
    rw [hchain]
    refine ⟨policyAt_chain hrun hnic, fun chain r h => ?_⟩
    have hnone : times (rulesAt t ("filter", chain)) r = 0 := by
      rw [times_eq_zero_iff]
      intro hr
      obtain h | h := h
      · rw [h] at hr
        have hempty : rulesAt t (chainKey c.1) = [] := rulesAt_eq_nil (ht.chains c.1 hnic)
        exact absurd (hempty ▸ hr) List.not_mem_nil
      · exact ht.targets c.1 hnic chain r hr h
    calc times (rulesAt t₁ ("filter", chain)) r = times (added agent docker ("filter", chain)) r := by
          rw [hrules, hnone, Nat.zero_add]
      _ ≤ times (removals ("filter", chain) (stopCommands (commands agent docker))) r := (hcount _ r).ge

/-! ### What remains after stop -/

/-- An interface whose name is taken for a flag makes `_stop` fail: a rule that is not there is to be removed. -/
theorem tknMap_of_runs (ht : WithoutUno agent t)
    (hrun : runCommands t ((commands agent docker).map Prod.snd) = some t₁)
    (hstop : runCommands t₁ (stopCommands (commands agent docker)) = some t₂) :
    ∀ nic ∈ nics agent, tknMap nic = nic := by
  intro nic hnic
  have hdrop : ["-i", nic, "-j", "DROP"] ∈ added agent docker (chainKey nic) := by
    rw [← map_fst_groups] at hnic
    obtain ⟨g, hg, rfl⟩ := List.mem_map.mp hnic
    refine mem_additions_iff.mpr ⟨filterAppend ("FORWARD_" ++ g.1) ["-i", g.1, "-j", "DROP"], ?_, rfl, rfl⟩
    rw [map_snd_commands]
    refine List.mem_cons_of_mem _ (List.mem_cons_of_mem _ (List.mem_flatMap.mpr ⟨g, hg, ?_⟩))
    refine List.mem_append_left _ (List.mem_cons_of_mem _ (List.mem_append_right _ ?_))
    exact List.mem_cons_self
  have hremoved : ["-i", tknMap nic, "-j", "DROP"] ∈ removals (chainKey nic) (stopCommands (commands agent docker)) := by
    rw [(removals_stopCommands _).mem_iff]
    exact List.mem_map.mpr ⟨_, hdrop, rfl⟩
  have hthere := mem_of_run hstop tearsDown_stopCommands hremoved
  rw [← times_pos_iff, times_rulesAt_run hrun builds_commands, rulesAt_eq_nil (ht.chains nic hnic), times_nil,
    Nat.zero_add, times_pos_iff] at hthere
  obtain ⟨cmd, hcmd, hkey, hadded⟩ := mem_additions_iff.mp hthere
  obtain ⟨c, hc, rfl⟩ := List.mem_map.mp hcmd
  obtain rfl | rfl | ⟨-, hgroup⟩ := mem_commands agent hc
  · cases hadded
  · exact absurd (congrArg Prod.snd hkey).symm (chainName_ne_forward nic)
  · generalize c.2 = cmd at hgroup hkey hadded
    cases hgroup with
    | new => cases hadded
    | jump => exact absurd (congrArg Prod.snd hkey).symm (chainName_ne_forward nic)
    | own rule _ hdrop =>
      cases hadded
      rw [hdrop _ rfl]
      exact chainName_injective (congrArg Prod.snd hkey)
    | docker => exact absurd (congrArg Prod.snd hkey).symm (chainName_ne_docker nic)
    | masquerade => exact absurd (congrArg Prod.fst hkey) (by simp)

section remains

variable (hnames : ∀ nic ∈ nics agent, tknMap nic = nic)
  (hrun : runCommands t ((commands agent docker).map Prod.snd) = some t₁)
  (hstop : runCommands t₁ (stopCommands (commands agent docker)) = some t₂)

include hnames hrun hstop

omit hrun in
theorem rulesAt_stopped (k : String × String) : rulesAt t₂ k = left (rulesAt t₁ k) (added agent docker k) := by
  rw [rulesAt_run_left hstop tearsDown_stopCommands, left_perm (removals_stopCommands k), map_added hnames]

theorem rulesAt_appended {k : String × String} (hk : k ≠ dockerKey) :
    rulesAt t₂ k = left (rulesAt t k ++ added agent docker k) (added agent docker k) := by
  rw [rulesAt_stopped hnames hstop, rulesAt_run_append hrun builds_commands]
  intro cmd hcmd hkey
  have hop := op_of_key hcmd
  rwa [hkey, if_neg hk] at hop

theorem rulesAt_docker : rulesAt t₂ dockerKey = rulesAt t dockerKey := by
  rw [rulesAt_stopped hnames hstop, rulesAt_run_insert hrun builds_commands,
    left_perm (List.reverse_perm _).symm, left_append_of_front]
  intro cmd hcmd hkey r hop
  have hinsert := op_of_key hcmd
  rw [hkey, if_pos rfl] at hinsert
  obtain ⟨r', hr'⟩ := hinsert
  rw [hop] at hr'
  cases hr'

theorem rulesAt_forward (ht : WithoutUno agent t) :
    rulesAt t₂ forwardKey = left (rulesAt t forwardKey ++ [pmtuRule]) [pmtuRule] := by
  obtain ⟨jumps, hadded, hjumps⟩ := @added_forward agent docker
  have hnew : ∀ r ∈ jumps, r ∉ rulesAt t forwardKey ++ [pmtuRule] := by
    intro r hr hmem
    obtain ⟨nic, hnic, rfl⟩ := hjumps r hr
    rw [List.mem_append, List.mem_singleton] at hmem
    obtain hmem | hmem := hmem
    · exact ht.targets nic hnic "FORWARD" _ hmem rfl
    · exact absurd (congrArg List.length hmem) (by simp [pmtuRule])
  calc rulesAt t₂ forwardKey
      = left (rulesAt t forwardKey ++ pmtuRule :: jumps) (pmtuRule :: jumps) := by
        rw [rulesAt_appended hnames hrun hstop (by decide), hadded]
    _ = left ((rulesAt t forwardKey ++ [pmtuRule]) ++ jumps) (jumps ++ [pmtuRule]) := by
        rw [List.append_assoc, List.singleton_append]
        exact left_perm (List.perm_append_singleton pmtuRule jumps).symm
    _ = left (rulesAt t forwardKey ++ [pmtuRule]) [pmtuRule] := by
        rw [left_append, left_append_of_new hnew]

theorem rulesAt_other (ht : WithoutUno agent t) {k : String × String} (hforward : k ≠ forwardKey)
    (hpostrouting : k ≠ postroutingKey) : rulesAt t₂ k = rulesAt t k := by
  by_cases hdocker : k = dockerKey
  · rw [hdocker]
    exact rulesAt_docker hnames hrun hstop
  · rw [rulesAt_appended hnames hrun hstop hdocker]
    refine left_append_of_new fun r hr hmem => ?_
    by_cases hchain : ∃ nic ∈ nics agent, k = chainKey nic
    · obtain ⟨nic, hnic, rfl⟩ := hchain
      rw [rulesAt_eq_nil (ht.chains nic hnic)] at hmem
      cases hmem
    · obtain ⟨cmd, hcmd, hkey, -⟩ := mem_additions_iff.mp hr
      exact added_other hforward hpostrouting hdocker (fun nic hnic hk => hchain ⟨nic, hnic, hk⟩) cmd hcmd hkey

omit hnames in
theorem policyAt_stopped (ht : WithoutUno agent t) {k : String × String} (hk : k ≠ forwardKey) :
    policyAt t₂ k = policyAt t k := by
  by_cases hchain : ∃ nic ∈ nics agent, k = chainKey nic
  · obtain ⟨nic, hnic, rfl⟩ := hchain
    rw [ht.chains nic hnic]
    refine policyAt_run_deleted hstop tearsDown_stopCommands ?_
    have hnic' := hnic
    rw [← map_fst_groups] at hnic'
    obtain ⟨g, hg, rfl⟩ := List.mem_map.mp hnic'
    have hmem : (⟨"filter", "FORWARD_" ++ g.1, .new⟩ : IptablesCommand) ∈ (commands agent docker).map Prod.snd := by
      rw [map_snd_commands]
      refine List.mem_cons_of_mem _ (List.mem_cons_of_mem _ (List.mem_flatMap.mpr ⟨g, hg, ?_⟩))
      exact List.mem_append_left _ List.mem_cons_self
    obtain ⟨c, hc, hnew⟩ := List.mem_map.mp hmem
    refine ⟨undo c.2, (stopCommands_perm _).mem_iff.mpr (List.mem_map_of_mem hc), ?_, ?_⟩
    · rw [hnew]
      rfl
    · rw [hnew]
      rfl
  · have hkept {c : String × IptablesCommand} (hc : c ∈ commands agent docker) (hkey : key c.2 = k) :
        c.2.op ≠ .new ∧ ∀ p, c.2.op ≠ .setPolicy p := by
      constructor
      · intro hop
        obtain rfl | rfl | ⟨hnic, -⟩ := mem_commands agent hc
        · cases hop
        · cases hop
        · rw [eq_new_of_mem hc hop] at hkey
          exact hchain ⟨c.1, hnic, hkey.symm⟩
      · intro p hop
        rw [eq_setPolicy_of_mem hc hop] at hkey
        exact hk hkey.symm
    have hstart : policyAt t₁ k = policyAt t k := by
      refine policyAt_run_of_kept hrun fun cmd hcmd hkey => ?_
      obtain ⟨c, hc, rfl⟩ := List.mem_map.mp hcmd
      obtain ⟨hnew, hset⟩ := hkept hc hkey
      refine ⟨hnew, fun hop => ?_, hset⟩
      have hbuilds := builds_of_mem hc
      rw [hop] at hbuilds
      cases hbuilds
    rw [← hstart]
    refine policyAt_run_of_kept hstop fun cmd hcmd hkey => ?_
    obtain ⟨c, hc, rfl⟩ := mem_stopCommands hcmd
    obtain ⟨hnew, hset⟩ := hkept hc hkey
    have hbuilds := builds_of_mem hc
    rw [undo]
    cases hop : c.2.op with
    | setPolicy p => exact absurd hop (hset p)
    | new => exact absurd hop hnew
    | append r => exact ⟨fun h => (by cases h), fun h => (by cases h), fun _ h => (by cases h)⟩
    | insert r => exact ⟨fun h => (by cases h), fun h => (by cases h), fun _ h => (by cases h)⟩
    | delete =>
      rw [hop] at hbuilds
      cases hbuilds
    | remove r =>
      rw [hop] at hbuilds
      cases hbuilds

omit hnames hrun in
theorem policyAt_forward_stopped : policyAt t₂ forwardKey = some (some "ACCEPT") := by
  refine policyAt_run_settled hstop (fun cmd hcmd hkey => ?_) (.inr ?_)
  · obtain ⟨c, hc, rfl⟩ := mem_stopCommands hcmd
    have hbuilds := builds_of_mem hc
    refine ⟨fun hop => ?_, fun hop => ?_, fun p hop => ?_⟩
    · have hkey' : key c.2 = forwardKey := hkey
      rw [eq_new_of_mem hc (undo_eq_delete hop hbuilds)] at hkey'
      exact absurd (congrArg Prod.snd hkey') (chainName_ne_forward c.1)
    · rw [undo] at hop
      cases hc' : c.2.op <;> simp_all [ChainOp.builds]
    · rw [undo] at hop
      cases hc' : c.2.op <;> simp_all
  · refine ⟨undo ⟨"filter", "FORWARD", .setPolicy "DROP"⟩, ?_, rfl, .inr ⟨_, rfl⟩⟩
    rw [(stopCommands_perm _).mem_iff]
    exact List.mem_map.mpr ⟨_, List.mem_cons_self, rfl⟩

theorem restored_iff (ht : WithoutUno agent t) : Restored t t₂ ↔
    left (rulesAt t forwardKey ++ [pmtuRule]) [pmtuRule] = rulesAt t forwardKey ∧
      left (rulesAt t postroutingKey ++ masquerades agent) (masquerades agent) = rulesAt t postroutingKey := by
  have hforward := rulesAt_forward hnames hrun hstop ht
  have hpostrouting := rulesAt_appended hnames hrun hstop (show postroutingKey ≠ dockerKey by decide)
  rw [added_postrouting] at hpostrouting
  have hrules {t t' : Iptables} {k : String × String} (h : t'.get? k = t.get? k) : rulesAt t' k = rulesAt t k := by
    rw [rulesAt, h, rulesAt]
  constructor
  · intro h
    constructor
    · rw [← hforward, rulesAt, h.forward, rulesAt]
    · rw [← hpostrouting, hrules (h.chains postroutingKey (by decide))]
  · rintro ⟨hforward', hpostrouting'⟩
    refine ⟨fun k hk => get?_eq_of (policyAt_stopped hrun hstop ht hk) ?_, ?_⟩
    · by_cases hk' : k = postroutingKey
      · rw [hk', hpostrouting, hpostrouting']
      · exact rulesAt_other hnames hrun hstop ht hk hk'
    · rw [hforward'] at hforward
      have hbefore := Option.isSome_of_any ht.forward
      have hafter : (policyAt t₂ forwardKey).isSome := by
        rw [policyAt_forward_stopped hstop]
        rfl
      rw [policyAt, Option.isSome_map] at hbefore hafter
      obtain ⟨chain, hchain⟩ := Option.isSome_iff_exists.mp hbefore
      obtain ⟨chain₂, hchain₂⟩ := Option.isSome_iff_exists.mp hafter
      rw [rulesAt, rulesAt, hchain, hchain₂] at hforward
      rw [hchain, hchain₂, Option.map_some, Option.map_some, Option.some.injEq]
      exact hforward

end remains

theorem start_stop_runs (agent : UvnNetAgent) (t : Iptables) (P : Iptables → Prop) :
    (∃ s, start agent { tables := t } = .ok s ∧ ∃ t₂, stop s = .ok t₂ ∧ P t₂) ↔
      ∃ t₁, runCommands t ((commands agent (dockerInstalled t)).map Prod.snd) = some t₁ ∧
        ∃ t₂, runCommands t₁ (stopCommands (commands agent (dockerInstalled t))) = some t₂ ∧ P t₂ := by
  rw [start_eq]
  simp only [foldlM_installCommand_iff]
  constructor
  · rintro ⟨s, ⟨hrun, hrules, hbackup⟩, t₂, hstop, h⟩
    rw [stop_eq_ok_iff (by rw [hbackup]; rfl) hrules] at hstop
    exact ⟨s.tables, hrun, t₂, hstop, h⟩
  · rintro ⟨t₁, hrun, t₂, hstop, h⟩
    refine ⟨⟨t₁, some t, (commands agent (dockerInstalled t)).foldl logRule ∅⟩, ⟨hrun, rfl, rfl⟩, t₂, ?_, h⟩
    exact (stop_eq_ok_iff rfl rfl).mpr hstop

/-- The rules start and stop cleanly if and only if no two interfaces have one name, none has the name of a flag, and the
rules that uno appends come off the tables as they were put on. -/
theorem start_stop_iff (agent : UvnNetAgent) (t : Iptables) (ht : WithoutUno agent t) :
    (∃ s, start agent { tables := t } = .ok s ∧ ∃ t₂, stop s = .ok t₂ ∧ Restored t t₂) ↔ Restorable agent t := by
  have hdocker : dockerInstalled t = true → (policyAt t dockerKey).isSome := by
    rw [dockerInstalled_eq]
    exact id
  rw [start_stop_runs]
  constructor
  · rintro ⟨t₁, hrun, t₂, hstop, hrestored⟩
    have hnames := tknMap_of_runs ht hrun hstop
    obtain ⟨hforward, hpostrouting⟩ := (restored_iff hnames hrun hstop ht).mp hrestored
    refine ⟨(run_commands_iff ht hdocker).mp ⟨t₁, hrun⟩, fun nic hnic => ?_, hforward, hpostrouting⟩
    exact (tknMap_eq_self_iff nic).mp (hnames nic hnic)
  · intro h
    have hnames : ∀ nic ∈ nics agent, tknMap nic = nic := fun nic hnic => (tknMap_eq_self_iff nic).mpr (h.names nic hnic)
    obtain ⟨t₁, hrun⟩ := (run_commands_iff ht hdocker).mpr h.nodup
    obtain ⟨t₂, hstop⟩ : ∃ t₂, runCommands t₁ (stopCommands (commands agent (dockerInstalled t))) = some t₂ :=
      (undoes_stopCommands ht hnames hrun).run
    exact ⟨t₁, hrun, t₂, hstop, (restored_iff hnames hrun hstop ht).mpr ⟨h.forward, h.postrouting⟩⟩

end tables

end UvnNet

/-! ### Two LANs on one interface -/

/-- Tables with a rule in `FORWARD` and without Docker. -/
def plainTables : Iptables where
  entries := [(("filter", "FORWARD"), ⟨some "ACCEPT", [["-i", "lo", "-j", "ACCEPT"]]⟩),
    (("nat", "POSTROUTING"), ⟨some "ACCEPT", []⟩)]
  nodup := by decide

/-- An agent without VPNs. -/
def lanAgent (lans : List String) : UvnNetAgent where
  lans
  rootVpn := none
  particlesVpn := none
  backboneVpns := []
  rootSubnet := ⟨⟨0, by decide⟩, 32, by decide, one_dvd _⟩
  particlesSubnet := ⟨⟨0, by decide⟩, 32, by decide, one_dvd _⟩
  backboneSubnet := ⟨⟨0, by decide⟩, 32, by decide, one_dvd _⟩
  allowedLans := []

theorem withoutUno_plainTables (lans : List String) : UvnNet.WithoutUno (lanAgent lans) plainTables := by
  refine ⟨rfl, rfl, fun nic _ => ?_, fun nic _ c r hr hjump => ?_⟩
  · rw [RuleTables.policyAt, Option.map_eq_none_iff, Dict.get?_eq_none_iff]
    intro hmem
    have hchain : "FORWARD_" ++ nic ∈ ["FORWARD", "POSTROUTING"] := List.mem_map_of_mem (f := Prod.snd) hmem
    rw [List.mem_pair] at hchain
    exact hchain.elim (UvnNet.chainName_ne (by decide)) (UvnNet.chainName_ne (by decide))
  · have hrule : r = ["-i", "lo", "-j", "ACCEPT"] := by
      rw [RuleTables.rulesAt] at hr
      cases hget : plainTables.get? ("filter", c) with
      | none =>
        rw [hget] at hr
        cases hr
      | some chain =>
        rw [hget] at hr
        have hentry := Dict.get?_eq_some_iff.mp hget
        rw [plainTables, List.mem_pair] at hentry
        obtain hentry | hentry := hentry
        · cases hentry
          exact List.mem_singleton.mp hr
        · exact absurd (congrArg (fun e => e.1.1) hentry) (by simp)
    rw [hrule] at hjump
    exact absurd (Option.some.inj hjump).symm (UvnNet.chainName_ne (by decide))

theorem start_stop_two_nics : ∃ s, UvnNet.start (lanAgent ["eth0", "eth1"]) { tables := plainTables } = .ok s ∧
    ∃ t₂, s.stop = .ok t₂ ∧ UvnNet.Restored plainTables t₂ :=
  (UvnNet.start_stop_iff _ _ (withoutUno_plainTables _)).mpr ⟨by decide, by decide, by decide, by decide⟩

/-- A second chain of the interface is created, which fails. -/
theorem start_two_lans : UvnNet.WithoutUno (lanAgent ["eth0", "eth0"]) plainTables ∧
    ¬∃ s, UvnNet.start (lanAgent ["eth0", "eth0"]) { tables := plainTables } = .ok s := by
  refine ⟨withoutUno_plainTables _, ?_⟩
  rintro ⟨s, hs⟩
  rw [UvnNet.start_eq, UvnNet.foldlM_installCommand_iff] at hs
  have hdocker : UvnNet.dockerInstalled plainTables = true →
      (RuleTables.policyAt plainTables UvnNet.dockerKey).isSome := fun h => absurd h (by decide)
  have hnodup := (UvnNet.run_commands_iff (withoutUno_plainTables ["eth0", "eth0"]) hdocker).mp ⟨_, hs.1⟩
  exact absurd hnodup (by decide)

end Uno
