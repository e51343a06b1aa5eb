import Mathlib.Data.List.Basic
import Mathlib.Data.List.Count
import Mathlib.Data.List.Perm.Basic
import Mathlib.Data.List.Perm.Lattice
import Uno.Lib.Dict

/-!
# Chains of rules

Tables of named chains of rules, as a packet filter has them: a chain is created, rules are appended to it, inserted
before the others or removed, and it is deleted when it is empty and no rule names it as its target. Commands that
take down what others have built succeed when they remove each rule before the chains that hold it or that it names
(`Undoes.run`).
-/

/-- A chain: the policy, which only the built-in chains have, and the rules in order. -/
structure RuleChain (ρ π : Type*) where
  policy : Option π
  rules : List ρ
  deriving DecidableEq

inductive ChainOp (ρ π : Type*) where
  | setPolicy (policy : π)
  | new
  | delete
  | append (rule : ρ)
  | insert (rule : ρ)
  | remove (rule : ρ)
  deriving DecidableEq

namespace ChainOp

variable {ρ π : Type*}

/-- The operations that build: they create, add and set policies. -/
def builds : ChainOp ρ π → Bool
  | .delete | .remove _ => false
  | _ => true

/-- The operations that take down: they remove, delete and set policies. -/
def tearsDown : ChainOp ρ π → Bool
  | .setPolicy _ | .delete | .remove _ => true
  | _ => false

/-- The rule that is added. -/
def added : ChainOp ρ π → Option ρ
  | .append r | .insert r => some r
  | _ => none

/-- The rule that is removed. -/
def removed : ChainOp ρ π → Option ρ
  | .remove r => some r
  | _ => none

theorem removed_eq_some_iff {op : ChainOp ρ π} {r : ρ} : op.removed = some r ↔ op = .remove r := by
  cases op <;> simp [removed]

end ChainOp

structure ChainCommand (τ ν ρ π : Type*) where
  table : τ
  chain : ν
  op : ChainOp ρ π
  deriving DecidableEq

/-- The chains of all tables, by table and name. -/
abbrev RuleTables (τ ν ρ π : Type*) := Dict (τ × ν) (RuleChain ρ π)

/-! ### Lists of rules -/

namespace RuleList

variable {ρ : Type*} [DecidableEq ρ]

/-- How often a rule is in a list. -/
def times (rules : List ρ) (r : ρ) : ℕ := rules.count r

/-- The rules that are left when others are removed, each one at its first place. -/
def left (rules removed : List ρ) : List ρ := rules.diff removed

variable {rules added removed l l' : List ρ} {r a : ρ}

theorem times_nil : times [] r = 0 := List.count_nil

theorem times_append : times (l ++ l') r = times l r + times l' r := List.count_append

theorem times_eq_zero_iff : times rules r = 0 ↔ r ∉ rules := List.count_eq_zero

theorem times_pos_iff : 0 < times rules r ↔ r ∈ rules := List.count_pos_iff

theorem times_perm (h : l.Perm l') (r : ρ) : times l r = times l' r := h.count_eq r

theorem times_left : times (left rules removed) r = times rules r - times removed r := List.count_diff _ _ _

theorem left_cons : left rules (a :: l) = left (rules.erase a) l := List.diff_cons _ _ _

theorem left_append : left rules (l ++ l') = left (left rules l) l' := List.diff_append _ _ _

theorem left_perm (h : l.Perm l') : left rules l = left rules l' := h.diff_left rules

theorem left_subset : left rules removed ⊆ rules := List.diff_subset _ _

theorem left_append_of_front : left (added ++ rules) added = rules := by
  induction added with
  | nil => rfl
  | cons a added ih => rw [List.cons_append, left_cons, List.erase_cons_head, ih]

theorem left_append_of_new (hnew : ∀ a ∈ added, a ∉ rules) : left (rules ++ added) added = rules := by
  induction added with
  | nil => exact List.append_nil rules
  | cons a added ih =>
    rw [left_cons, List.erase_append_right _ (hnew a List.mem_cons_self), List.erase_cons_head]
    exact ih fun a ha => hnew a (List.mem_cons_of_mem _ ha)

end RuleList

namespace RuleTables

open RuleList

variable {τ ν ρ π : Type*} [DecidableEq τ] [DecidableEq ν]

abbrev key (cmd : ChainCommand τ ν ρ π) : τ × ν := (cmd.table, cmd.chain)

/-- The rules of a chain; none where there is no chain. -/
def rulesAt (t : RuleTables τ ν ρ π) (k : τ × ν) : List ρ := ((t.get? k).map RuleChain.rules).getD []

/-- The policy of a chain, where there is one. -/
def policyAt (t : RuleTables τ ν ρ π) (k : τ × ν) : Option (Option π) := (t.get? k).map RuleChain.policy

/-- The rules that commands add to a chain, in order. -/
def additions (k : τ × ν) (cmds : List (ChainCommand τ ν ρ π)) : List ρ :=
  cmds.filterMap fun cmd => if key cmd = k then cmd.op.added else none

/-- The rules that commands remove from a chain, in order. -/
def removals (k : τ × ν) (cmds : List (ChainCommand τ ν ρ π)) : List ρ :=
  cmds.filterMap fun cmd => if key cmd = k then cmd.op.removed else none

section tables

variable {cmd : ChainCommand τ ν ρ π} {cmds : List (ChainCommand τ ν ρ π)}
variable {t t₂ : RuleTables τ ν ρ π} {k : τ × ν} {r : ρ}

theorem rulesAt_eq_nil (h : policyAt t k = none) : rulesAt t k = [] := by
  rw [policyAt, Option.map_eq_none_iff] at h
  rw [rulesAt, h]
  rfl

theorem mem_keys_iff_policyAt : k ∈ t.keys ↔ (policyAt t k).isSome := by
  rw [policyAt, Option.isSome_map, Option.isSome_iff_exists, Dict.mem_keys_iff]

theorem mem_additions_iff : r ∈ additions k cmds ↔ ∃ cmd ∈ cmds, key cmd = k ∧ cmd.op.added = some r := by
  simp only [additions, List.mem_filterMap, Option.ite_none_right_eq_some]

theorem mem_removals_iff : r ∈ removals k cmds ↔ ∃ cmd ∈ cmds, key cmd = k ∧ cmd.op = .remove r := by
  simp only [removals, List.mem_filterMap, Option.ite_none_right_eq_some, ChainOp.removed_eq_some_iff]

theorem additions_cons_of_ne (hk : k ≠ key cmd) : additions k (cmd :: cmds) = additions k cmds := by
  rw [additions, List.filterMap_cons, if_neg (Ne.symm hk)]
  rfl

theorem additions_cons_self : additions (key cmd) (cmd :: cmds) = cmd.op.added.toList ++ additions (key cmd) cmds := by
  rw [additions, List.filterMap_cons, if_pos rfl]
  cases cmd.op.added <;> rfl

theorem removals_cons_of_ne (hk : k ≠ key cmd) : removals k (cmd :: cmds) = removals k cmds := by
  rw [removals, List.filterMap_cons, if_neg (Ne.symm hk)]
  rfl

theorem removals_cons_self : removals (key cmd) (cmd :: cmds) = cmd.op.removed.toList ++ removals (key cmd) cmds := by
  rw [removals, List.filterMap_cons, if_pos rfl]
  cases cmd.op.removed <;> rfl

theorem get?_eq_of (hpolicy : policyAt t₂ k = policyAt t k) (hrules : rulesAt t₂ k = rulesAt t k) :
    t₂.get? k = t.get? k := by
  rw [policyAt, policyAt] at hpolicy
  rw [rulesAt, rulesAt] at hrules
  cases h : t.get? k with
  | none => rwa [h, Option.map_none, Option.map_eq_none_iff] at hpolicy
  | some c =>
    rw [h, Option.map_some, Option.map_eq_some_iff] at hpolicy
    obtain ⟨c₂, hc₂, hpolicy⟩ := hpolicy
    rw [h, hc₂] at hrules
    rw [hc₂, Option.some.injEq]
    obtain ⟨policy, rules⟩ := c
    obtain ⟨policy₂, rules₂⟩ := c₂
    exact congrArg₂ RuleChain.mk hpolicy hrules

end tables

/-! ### Commands -/

section exec

variable [DecidableEq ρ] (target : ρ → Option ν) (standard : ν → Bool)

/-- Some rule of the table names the chain as its target. -/
def referenced (t : RuleTables τ ν ρ π) (k : τ × ν) : Bool :=
  t.entries.any fun e => e.1.1 = k.1 ∧ ∃ r ∈ e.2.rules, target r = some k.2

/-- The target of the rule exists: it is a chain of the table, or a target that is no chain. -/
def targetKnown (t : RuleTables τ ν ρ π) (table : τ) (r : ρ) : Bool :=
  (target r).all fun c => standard c ∨ (table, c) ∈ t.keys

def allowed (t : RuleTables τ ν ρ π) (cmd : ChainCommand τ ν ρ π) : Bool :=
  match cmd.op with
  | .setPolicy _ => (policyAt t (key cmd)).any Option.isSome
  | .new => (policyAt t (key cmd)).isNone
  | .delete => (policyAt t (key cmd)).any Option.isNone ∧ rulesAt t (key cmd) = [] ∧ ¬referenced target t (key cmd)
  | .append r | .insert r => (policyAt t (key cmd)).isSome ∧ targetKnown target standard t cmd.table r
  | .remove r => r ∈ rulesAt t (key cmd)

/-- What a command makes of its chain. -/
def effect (op : ChainOp ρ π) (chain : Option (RuleChain ρ π)) : Option (RuleChain ρ π) :=
  match op with
  | .setPolicy policy => chain.map fun c => { c with policy := some policy }
  | .new => some ⟨none, []⟩
  | .delete => none
  | .append r => chain.map fun c => { c with rules := c.rules ++ [r] }
  | .insert r => chain.map fun c => { c with rules := r :: c.rules }
  | .remove r => chain.map fun c => { c with rules := c.rules.erase r }

def exec (t : RuleTables τ ν ρ π) (cmd : ChainCommand τ ν ρ π) : Option (RuleTables τ ν ρ π) :=
  if allowed target standard t cmd then
    match effect cmd.op (t.get? (key cmd)) with
    | some chain => some (t.set (key cmd) chain)
    | none => some (t.erase (key cmd))
  else none

def run (t : RuleTables τ ν ρ π) (cmds : List (ChainCommand τ ν ρ π)) : Option (RuleTables τ ν ρ π) :=
  cmds.foldlM (exec target standard) t

variable {target standard}
variable {t t' t₂ : RuleTables τ ν ρ π} {cmd : ChainCommand τ ν ρ π} {cmds : List (ChainCommand τ ν ρ π)} {k : τ × ν}
  {r : ρ}

omit [DecidableEq ρ] in
theorem referenced_iff : referenced target t k = true ↔ ∃ c r, r ∈ rulesAt t (k.1, c) ∧ target r = some k.2 := by
  rw [referenced, List.any_eq_true]
  constructor
  · rintro ⟨⟨⟨table, c⟩, chain⟩, he, hr⟩
    obtain ⟨htable, r, hr, htarget⟩ := of_decide_eq_true hr
    obtain rfl : table = k.1 := htable
    refine ⟨c, r, ?_, htarget⟩
    rw [rulesAt, Dict.get?_eq_some_iff.mpr he]
    exact hr
  · rintro ⟨c, r, hr, htarget⟩
    rw [rulesAt] at hr
    cases hchain : t.get? (k.1, c) with
    | none =>
      rw [hchain] at hr
      cases hr
    | some chain =>
      rw [hchain] at hr
      exact ⟨((k.1, c), chain), Dict.get?_eq_some_iff.mp hchain, decide_eq_true ⟨rfl, r, hr, htarget⟩⟩

theorem allowed_of_exec (h : exec target standard t cmd = some t') : allowed target standard t cmd = true := by
  rw [exec] at h
  by_contra hallowed
  rw [if_neg hallowed] at h
  cases h

theorem exec_isSome (h : allowed target standard t cmd = true) : ∃ t', exec target standard t cmd = some t' := by
  rw [exec, if_pos h]
  split
  · exact ⟨_, rfl⟩
  · exact ⟨_, rfl⟩

theorem get?_exec (h : exec target standard t cmd = some t') (k : τ × ν) :
    t'.get? k = if k = key cmd then effect cmd.op (t.get? k) else t.get? k := by
  rw [exec, if_pos (allowed_of_exec h)] at h
  by_cases hk : k = key cmd
  · subst hk
    rw [if_pos rfl]
    cases heffect : effect cmd.op (t.get? (key cmd)) with
    | some chain =>
      rw [heffect] at h
      rw [← Option.some.inj h, Dict.get?_set_self]
    | none =>
      rw [heffect] at h
      rw [← Option.some.inj h, Dict.get?_erase, if_pos rfl]
  · rw [if_neg hk]
    cases heffect : effect cmd.op (t.get? (key cmd)) with
    | some chain =>
      rw [heffect] at h
      rw [← Option.some.inj h, Dict.get?_set_ne _ _ (Ne.symm hk)]
    | none =>
      rw [heffect] at h
      rw [← Option.some.inj h, Dict.get?_erase, if_neg hk]

theorem run_cons_eq_some_iff : run target standard t (cmd :: cmds) = some t₂ ↔
    ∃ t', exec target standard t cmd = some t' ∧ run target standard t' cmds = some t₂ := by
  rw [run, List.foldlM_cons]
  exact Option.bind_eq_some_iff

/-! ### The effect of a command on its chain and on the others -/

theorem rulesAt_exec_of_ne (h : exec target standard t cmd = some t') (hk : k ≠ key cmd) :
    rulesAt t' k = rulesAt t k := by
  rw [rulesAt, get?_exec h, if_neg hk, rulesAt]

theorem policyAt_exec_of_ne (h : exec target standard t cmd = some t') (hk : k ≠ key cmd) :
    policyAt t' k = policyAt t k := by
  rw [policyAt, get?_exec h, if_neg hk, policyAt]

theorem rulesAt_exec_self (h : exec target standard t cmd = some t') : rulesAt t' (key cmd) =
    match cmd.op with
    | .setPolicy _ => rulesAt t (key cmd)
    | .new | .delete => []
    | .append r => rulesAt t (key cmd) ++ [r]
    | .insert r => r :: rulesAt t (key cmd)
    | .remove r => (rulesAt t (key cmd)).erase r := by
  have hallowed := allowed_of_exec h
  rw [allowed] at hallowed
  rw [rulesAt, get?_exec h, if_pos rfl, rulesAt]
  rw [policyAt] at hallowed
  cases hop : cmd.op with
  | new => rfl
  | delete => rfl
  | setPolicy p => cases t.get? (key cmd) <;> rfl
  | remove r => cases t.get? (key cmd) <;> rfl
  | append r =>
    rw [hop] at hallowed
    cases hchain : t.get? (key cmd) with
    | none => simp [hchain] at hallowed
    | some chain => rfl
  | insert r =>
    rw [hop] at hallowed
    cases hchain : t.get? (key cmd) with
    | none => simp [hchain] at hallowed
    | some chain => rfl

theorem policyAt_exec_self (h : exec target standard t cmd = some t') : policyAt t' (key cmd) =
    match cmd.op with
    | .setPolicy p => some (some p)
    | .new => some none
    | .delete => none
    | _ => policyAt t (key cmd) := by
  have hallowed := allowed_of_exec h
  rw [allowed] at hallowed
  rw [policyAt, get?_exec h, if_pos rfl, policyAt]
  rw [policyAt] at hallowed
  cases hop : cmd.op with
  | new => rfl
  | delete => rfl
  | setPolicy p =>
    rw [hop] at hallowed
    cases hchain : t.get? (key cmd) with
    | none => simp [hchain] at hallowed
    | some chain => rfl
  | remove r => cases t.get? (key cmd) <;> rfl
  | append r => cases t.get? (key cmd) <;> rfl
  | insert r => cases t.get? (key cmd) <;> rfl

theorem run_append_eq_some_iff {cmds' : List (ChainCommand τ ν ρ π)} :
    run target standard t (cmds ++ cmds') = some t₂ ↔
      ∃ t', run target standard t cmds = some t' ∧ run target standard t' cmds' = some t₂ := by
  rw [run, List.foldlM_append]
  exact Option.bind_eq_some_iff

/-! ### Commands that build -/

section building

variable {t₁ : RuleTables τ ν ρ π}

/-- Commands that build leave in a chain what was there and what they add. -/
theorem times_rulesAt_run (h : run target standard t cmds = some t₁) (hbuilds : ∀ cmd ∈ cmds, cmd.op.builds) (k : τ × ν)
    (r : ρ) : times (rulesAt t₁ k) r = times (rulesAt t k) r + times (additions k cmds) r := by
  induction cmds generalizing t with
  | nil =>
    rw [← Option.some.inj h]
    rfl
  | cons cmd cmds ih =>
    obtain ⟨t', hexec, hrun⟩ := run_cons_eq_some_iff.mp h
    rw [ih hrun fun cmd hcmd => hbuilds cmd (List.mem_cons_of_mem _ hcmd)]
    by_cases hk : k = key cmd
    · subst hk
      have hbuild := hbuilds cmd List.mem_cons_self
      have hallowed := allowed_of_exec hexec
      rw [rulesAt_exec_self hexec, additions_cons_self, times_append]
      cases hop : cmd.op with
      | setPolicy p => simp [ChainOp.added, times_nil]
      | new =>
        rw [allowed, hop, Option.isNone_iff_eq_none] at hallowed
        simp [ChainOp.added, rulesAt_eq_nil hallowed, times_nil]
      | append r' => simp [ChainOp.added, times_append, Nat.add_assoc]
      | insert r' =>
        show times ([r'] ++ rulesAt t (key cmd)) r + _ = _ + (times [r'] r + _)
        rw [times_append]
        omega
      | delete => simp [hop, ChainOp.builds] at hbuild
      | remove r' => simp [hop, ChainOp.builds] at hbuild
    · rw [rulesAt_exec_of_ne hexec hk, additions_cons_of_ne hk]

theorem rulesAt_run_append (h : run target standard t cmds = some t₁) (hbuilds : ∀ cmd ∈ cmds, cmd.op.builds)
    (hinsert : ∀ cmd ∈ cmds, key cmd = k → ∀ r, cmd.op ≠ .insert r) :
    rulesAt t₁ k = rulesAt t k ++ additions k cmds := by
  induction cmds generalizing t with
  | nil =>
    rw [← Option.some.inj h]
    exact (List.append_nil _).symm
  | cons cmd cmds ih =>
    obtain ⟨t', hexec, hrun⟩ := run_cons_eq_some_iff.mp h
    rw [ih hrun (fun cmd hcmd => hbuilds cmd (List.mem_cons_of_mem _ hcmd))
      fun cmd hcmd => hinsert cmd (List.mem_cons_of_mem _ hcmd)]
    by_cases hk : k = key cmd
    · subst hk
      have hbuild := hbuilds cmd List.mem_cons_self
      have hno := hinsert cmd List.mem_cons_self rfl
      have hallowed := allowed_of_exec hexec
      rw [rulesAt_exec_self hexec, additions_cons_self, ← List.append_assoc]
      cases hop : cmd.op with
      | setPolicy p => simp [ChainOp.added]
      | new =>
        rw [allowed, hop, Option.isNone_iff_eq_none] at hallowed
        simp [ChainOp.added, rulesAt_eq_nil hallowed]
      | append r' => rfl
      | insert r' => exact absurd hop (hno r')
      | delete => simp [hop, ChainOp.builds] at hbuild
      | remove r' => simp [hop, ChainOp.builds] at hbuild
    · rw [rulesAt_exec_of_ne hexec hk, additions_cons_of_ne hk]

theorem rulesAt_run_insert (h : run target standard t cmds = some t₁) (hbuilds : ∀ cmd ∈ cmds, cmd.op.builds)
    (happend : ∀ cmd ∈ cmds, key cmd = k → ∀ r, cmd.op ≠ .append r) :
    rulesAt t₁ k = (additions k cmds).reverse ++ rulesAt t k := by
  induction cmds generalizing t with
  | nil =>
    rw [← Option.some.inj h]
    rfl
  | cons cmd cmds ih =>
    obtain ⟨t', hexec, hrun⟩ := run_cons_eq_some_iff.mp h
    rw [ih hrun (fun cmd hcmd => hbuilds cmd (List.mem_cons_of_mem _ hcmd))
      fun cmd hcmd => happend cmd (List.mem_cons_of_mem _ hcmd)]
    by_cases hk : k = key cmd
    · subst hk
      have hbuild := hbuilds cmd List.mem_cons_self
      have hno := happend cmd List.mem_cons_self rfl
      have hallowed := allowed_of_exec hexec
      rw [rulesAt_exec_self hexec, additions_cons_self, List.reverse_append, List.append_assoc]
      cases hop : cmd.op with
      | setPolicy p => simp [ChainOp.added]
      | new =>
        rw [allowed, hop, Option.isNone_iff_eq_none] at hallowed
        simp [ChainOp.added, rulesAt_eq_nil hallowed]
      | append r' => exact absurd hop (hno r')
      | insert r' => rfl
      | delete => simp [hop, ChainOp.builds] at hbuild
      | remove r' => simp [hop, ChainOp.builds] at hbuild
    · rw [rulesAt_exec_of_ne hexec hk, additions_cons_of_ne hk]

theorem policyAt_isSome_run (h : run target standard t cmds = some t₁) (hbuilds : ∀ cmd ∈ cmds, cmd.op.builds)
    (hk : (policyAt t k).isSome) : (policyAt t₁ k).isSome := by
  induction cmds generalizing t with
  | nil => rwa [← Option.some.inj h]
  | cons cmd cmds ih =>
    obtain ⟨t', hexec, hrun⟩ := run_cons_eq_some_iff.mp h
    refine ih hrun (fun cmd hcmd => hbuilds cmd (List.mem_cons_of_mem _ hcmd)) ?_
    by_cases hkey : k = key cmd
    · subst hkey
      have hbuild := hbuilds cmd List.mem_cons_self
      rw [policyAt_exec_self hexec]
      cases hop : cmd.op <;> simp_all [ChainOp.builds]
    · rwa [policyAt_exec_of_ne hexec hkey]

theorem exists_of_exec (h : exec target standard t cmd = some t') (hbuilds : cmd.op.builds) :
    (policyAt t' (key cmd)).isSome ∧ ∀ r, cmd.op.added = some r → targetKnown target standard t cmd.table r = true := by
  have hallowed := allowed_of_exec h
  rw [policyAt_exec_self h]
  rw [allowed] at hallowed
  cases hop : cmd.op with
  | setPolicy p => exact ⟨rfl, fun r hr => by cases hr⟩
  | new => exact ⟨rfl, fun r hr => by cases hr⟩
  | delete => simp [hop, ChainOp.builds] at hbuilds
  | remove r => simp [hop, ChainOp.builds] at hbuilds
  | append r =>
    rw [hop] at hallowed
    obtain ⟨hsome, htarget⟩ := of_decide_eq_true hallowed
    exact ⟨hsome, fun r' hr' => by rwa [← Option.some.inj hr']⟩
  | insert r =>
    rw [hop] at hallowed
    obtain ⟨hsome, htarget⟩ := of_decide_eq_true hallowed
    exact ⟨hsome, fun r' hr' => by rwa [← Option.some.inj hr']⟩

theorem new_of_run (h : run target standard t cmds = some t₁) (hbuilds : ∀ cmd ∈ cmds, cmd.op.builds) :
    (∀ cmd ∈ cmds, cmd.op = .new → policyAt t (key cmd) = none) ∧
      cmds.Pairwise fun a b => b.op = .new → key a ≠ key b ∧
        ∀ r, a.op.added = some r → a.table = b.table → target r = some b.chain → standard b.chain = true := by
  induction cmds generalizing t with
  | nil => exact ⟨fun cmd hcmd => absurd hcmd List.not_mem_nil, .nil⟩
  | cons cmd cmds ih =>
    obtain ⟨t', hexec, hrun⟩ := run_cons_eq_some_iff.mp h
    obtain ⟨hnew, hpairwise⟩ := ih hrun fun cmd hcmd => hbuilds cmd (List.mem_cons_of_mem _ hcmd)
    obtain ⟨hchain, htarget⟩ := exists_of_exec hexec (hbuilds cmd List.mem_cons_self)
    have hexec' : run target standard t [cmd] = some t' := run_cons_eq_some_iff.mpr ⟨t', hexec, rfl⟩
    have hbefore : ∀ b ∈ cmds, b.op = .new → policyAt t (key b) = none := by
      intro b hb hop
      rw [← Option.not_isSome_iff_eq_none]
      intro hsome
      have hkept := policyAt_isSome_run hexec' (fun c hc => hbuilds c (by simp_all)) hsome
      rw [hnew b hb hop] at hkept
      cases hkept
    refine ⟨?_, List.pairwise_cons.mpr ⟨?_, hpairwise⟩⟩
    · intro b hb hop
      rw [List.mem_cons] at hb
      obtain rfl | hb := hb
      · have hallowed := allowed_of_exec hexec
        rwa [allowed, hop, Option.isNone_iff_eq_none] at hallowed
      · exact hbefore b hb hop
    · intro b hb hop
      refine ⟨?_, fun r hr htable hname => ?_⟩
      · intro heq
        rw [heq, hnew b hb hop] at hchain
        cases hchain
      · have hknown := htarget r hr
        rw [targetKnown, hname, Option.all_some, decide_eq_true_eq, mem_keys_iff_policyAt, htable] at hknown
        exact hknown.resolve_right fun hsome => by
          rw [hbefore b hb hop] at hsome
          cases hsome

theorem run_additions (t : RuleTables τ ν ρ π) (hadds : ∀ cmd ∈ cmds, (policyAt t (key cmd)).isSome ∧
      ∃ r, (cmd.op = .append r ∨ cmd.op = .insert r) ∧ targetKnown target standard t cmd.table r = true) :
    ∃ t₁, run target standard t cmds = some t₁ ∧ ∀ k, policyAt t₁ k = policyAt t k := by
  induction cmds generalizing t with
  | nil => exact ⟨t, rfl, fun k => rfl⟩
  | cons cmd cmds ih =>
    obtain ⟨hsome, r, hop, htarget⟩ := hadds cmd List.mem_cons_self
    have hallowed : allowed target standard t cmd = true := by
      rw [allowed]
      obtain hop | hop := hop
      · rw [hop]
        exact decide_eq_true ⟨hsome, htarget⟩
      · rw [hop]
        exact decide_eq_true ⟨hsome, htarget⟩
    obtain ⟨t', hexec⟩ := exec_isSome hallowed
    have hpolicy : ∀ k, policyAt t' k = policyAt t k := by
      intro k
      by_cases hk : k = key cmd
      · subst hk
        rw [policyAt_exec_self hexec]
        obtain hop | hop := hop
        · rw [hop]
        · rw [hop]
      · exact policyAt_exec_of_ne hexec hk
    have hknown : ∀ table r, targetKnown target standard t' table r = targetKnown target standard t table r := by
      intro table r
      simp only [targetKnown, mem_keys_iff_policyAt, hpolicy]
    obtain ⟨t₁, hrun, hpolicy₁⟩ := ih t' fun cmd hcmd => by
      obtain ⟨hsome, r, hop, htarget⟩ := hadds cmd (List.mem_cons_of_mem _ hcmd)
      exact ⟨by rwa [hpolicy], r, hop, by rwa [hknown]⟩
    exact ⟨t₁, run_cons_eq_some_iff.mpr ⟨t', hexec, hrun⟩, fun k => (hpolicy₁ k).trans (hpolicy k)⟩

end building

/-! ### Commands that take down -/

section undoing

/-- What commands that take down leave of the rules of a chain. -/
theorem rulesAt_run_left (h : run target standard t cmds = some t₂) (htears : ∀ cmd ∈ cmds, cmd.op.tearsDown)
    (k : τ × ν) : rulesAt t₂ k = left (rulesAt t k) (removals k cmds) := by
  induction cmds generalizing t with
  | nil =>
    rw [← Option.some.inj h]
    rfl
  | cons cmd cmds ih =>
    obtain ⟨t', hexec, hrun⟩ := run_cons_eq_some_iff.mp h
    rw [ih hrun fun cmd hcmd => htears cmd (List.mem_cons_of_mem _ hcmd)]
    by_cases hk : k = key cmd
    · subst hk
      have htear := htears cmd List.mem_cons_self
      have hallowed := allowed_of_exec hexec
      rw [rulesAt_exec_self hexec, removals_cons_self]
      cases hop : cmd.op with
      | setPolicy p => rfl
      | delete =>
        rw [allowed, hop] at hallowed
        rw [(of_decide_eq_true hallowed).2.1]
        rfl
      | remove r' => exact left_cons.symm
      | new => simp [hop, ChainOp.tearsDown] at htear
      | append r' => simp [hop, ChainOp.tearsDown] at htear
      | insert r' => simp [hop, ChainOp.tearsDown] at htear
    · rw [rulesAt_exec_of_ne hexec hk, removals_cons_of_ne hk]

theorem mem_of_run (h : run target standard t cmds = some t₂) (htears : ∀ cmd ∈ cmds, cmd.op.tearsDown)
    (hr : r ∈ removals k cmds) : r ∈ rulesAt t k := by
  induction cmds generalizing t with
  | nil => cases hr
  | cons cmd cmds ih =>
    obtain ⟨t', hexec, hrun⟩ := run_cons_eq_some_iff.mp h
    have hrest := ih hrun fun cmd hcmd => htears cmd (List.mem_cons_of_mem _ hcmd)
    have hexec' : run target standard t [cmd] = some t' := run_cons_eq_some_iff.mpr ⟨t', hexec, rfl⟩
    have hleft := rulesAt_run_left hexec' (fun c hc => htears c (by simp_all)) k
    have hkept : r ∈ rulesAt t' k → r ∈ rulesAt t k := by
      intro hmem
      rw [hleft] at hmem
      exact left_subset hmem
    by_cases hk : k = key cmd
    · subst hk
      rw [removals_cons_self, List.mem_append] at hr
      obtain hr | hr := hr
      · rw [Option.mem_toList, ChainOp.removed_eq_some_iff] at hr
        have hallowed := allowed_of_exec hexec
        rw [allowed, hr] at hallowed
        exact of_decide_eq_true hallowed
      · exact hkept (hrest hr)
    · rw [removals_cons_of_ne hk] at hr
      exact hkept (hrest hr)

theorem policyAt_run_of_kept (h : run target standard t cmds = some t₂) (hkept : ∀ cmd ∈ cmds, key cmd = k →
      cmd.op ≠ .new ∧ cmd.op ≠ .delete ∧ ∀ p, cmd.op ≠ .setPolicy p) : policyAt t₂ k = policyAt t k := by
  induction cmds generalizing t with
  | nil => rw [← Option.some.inj h]
  | cons cmd cmds ih =>
    obtain ⟨t', hexec, hrun⟩ := run_cons_eq_some_iff.mp h
    rw [ih hrun fun cmd hcmd => hkept cmd (List.mem_cons_of_mem _ hcmd)]
    by_cases hk : k = key cmd
    · subst hk
      have hop := hkept cmd List.mem_cons_self rfl
      rw [policyAt_exec_self hexec]
      cases hcmd : cmd.op <;> simp_all
    · exact policyAt_exec_of_ne hexec hk

theorem policyAt_run_none (h : run target standard t cmds = some t₂) (htears : ∀ cmd ∈ cmds, cmd.op.tearsDown)
    (hk : policyAt t k = none) : policyAt t₂ k = none := by
  induction cmds generalizing t with
  | nil => rwa [← Option.some.inj h]
  | cons cmd cmds ih =>
    obtain ⟨t', hexec, hrun⟩ := run_cons_eq_some_iff.mp h
    refine ih hrun (fun cmd hcmd => htears cmd (List.mem_cons_of_mem _ hcmd)) ?_
    by_cases hkey : k = key cmd
    · subst hkey
      have htear := htears cmd List.mem_cons_self
      have hallowed := allowed_of_exec hexec
      rw [policyAt_exec_self hexec]
      cases hop : cmd.op <;> simp_all [ChainOp.tearsDown, allowed]
    · rwa [policyAt_exec_of_ne hexec hkey]

theorem policyAt_run_deleted (h : run target standard t cmds = some t₂) (htears : ∀ cmd ∈ cmds, cmd.op.tearsDown)
    (hdelete : ∃ cmd ∈ cmds, key cmd = k ∧ cmd.op = .delete) : policyAt t₂ k = none := by
  induction cmds generalizing t with
  | nil =>
    obtain ⟨cmd, hcmd, -⟩ := hdelete
    cases hcmd
  | cons cmd cmds ih =>
    obtain ⟨t', hexec, hrun⟩ := run_cons_eq_some_iff.mp h
    have htears' := fun cmd hcmd => htears cmd (List.mem_cons_of_mem _ hcmd)
    obtain ⟨b, hb, hkey, hop⟩ := hdelete
    rw [List.mem_cons] at hb
    obtain rfl | hb := hb
    · refine policyAt_run_none hrun htears' ?_
      rw [← hkey, policyAt_exec_self hexec, hop]
    · exact ih hrun htears' ⟨b, hb, hkey, hop⟩

theorem policyAt_run_settled {policy : Option π} (h : run target standard t cmds = some t₂)
    (hkept : ∀ cmd ∈ cmds, key cmd = k → cmd.op ≠ .delete ∧ (cmd.op = .new → policy = none) ∧
      ∀ p, cmd.op = .setPolicy p → policy = some p)
    (hset : policyAt t k = some policy ∨ ∃ cmd ∈ cmds, key cmd = k ∧ (cmd.op = .new ∨ ∃ p, cmd.op = .setPolicy p)) :
    policyAt t₂ k = some policy := by
  induction cmds generalizing t with
  | nil =>
    rw [← Option.some.inj h]
    simpa using hset
  | cons cmd cmds ih =>
    obtain ⟨t', hexec, hrun⟩ := run_cons_eq_some_iff.mp h
    refine ih hrun (fun cmd hcmd => hkept cmd (List.mem_cons_of_mem _ hcmd)) ?_
    have hrest : (key cmd = k → cmd.op ≠ .new ∧ ∀ p, cmd.op ≠ .setPolicy p) → policyAt t k = some policy ∨
        ∃ b ∈ cmds, key b = k ∧ (b.op = .new ∨ ∃ p, b.op = .setPolicy p) := by
      intro hno
      refine hset.imp_right ?_
      rintro ⟨b, hb, hkey, hop⟩
      rw [List.mem_cons] at hb
      obtain rfl | hb := hb
      · obtain hop | ⟨p, hop⟩ := hop
        · exact absurd hop (hno hkey).1
        · exact absurd hop ((hno hkey).2 p)
      · exact ⟨b, hb, hkey, hop⟩
    by_cases hk : k = key cmd
    · subst hk
      obtain ⟨hdelete, hnew, hset'⟩ := hkept cmd List.mem_cons_self rfl
      rw [policyAt_exec_self hexec]
      cases hcmd : cmd.op with
      | setPolicy p => exact .inl (by rw [hset' p hcmd])
      | new => exact .inl (by rw [hnew hcmd])
      | delete => exact absurd hcmd hdelete
      | append r => exact hrest fun _ => by simp [hcmd]
      | insert r => exact hrest fun _ => by simp [hcmd]
      | remove r => exact hrest fun _ => by simp [hcmd]
    · rw [policyAt_exec_of_ne hexec hk]
      exact hrest fun hkey => absurd hkey.symm hk

variable (target) in
/-- Commands that take down chains in order: the rules that they remove are there; a chain that they delete is left
without rules, and no rule names it, before it is deleted. -/
structure Undoes (t : RuleTables τ ν ρ π) (cmds : List (ChainCommand τ ν ρ π)) : Prop where
  tearsDown : ∀ cmd ∈ cmds, cmd.op.tearsDown
  policies : ∀ cmd ∈ cmds, ∀ p, cmd.op = .setPolicy p → (policyAt t (key cmd)).any Option.isSome
  counts : ∀ k r, times (removals k cmds) r ≤ times (rulesAt t k) r
  deletes : ∀ cmd ∈ cmds, cmd.op = .delete → policyAt t (key cmd) = some none ∧
    ∀ c r, c = cmd.chain ∨ target r = some cmd.chain →
      times (rulesAt t (cmd.table, c)) r ≤ times (removals (cmd.table, c) cmds) r
  order : cmds.Pairwise fun a b => a.op = .delete →
    key a ≠ key b ∧ ∀ r, b.op = .remove r → b.table = a.table → target r ≠ some a.chain

namespace Undoes

theorem removals_of_delete (h : Undoes target t (cmd :: cmds)) (hop : cmd.op = .delete) :
    removals (key cmd) (cmd :: cmds) = [] := by
  rw [removals_cons_self, hop]
  show removals (key cmd) cmds = []
  rw [List.eq_nil_iff_forall_not_mem]
  intro r hr
  obtain ⟨b, hb, hkey, -⟩ := mem_removals_iff.mp hr
  exact ((List.pairwise_cons.mp h.order).1 b hb hop).1 hkey.symm

theorem allowed (h : Undoes target t (cmd :: cmds)) : allowed target standard t cmd = true := by
  have htear := h.tearsDown cmd List.mem_cons_self
  rw [RuleTables.allowed]
  cases hop : cmd.op with
  | setPolicy p => exact h.policies cmd List.mem_cons_self p hop
  | delete =>
    obtain ⟨hpolicy, hcount⟩ := h.deletes cmd List.mem_cons_self hop
    refine decide_eq_true ⟨by rw [hpolicy]; rfl, ?_, ?_⟩
    · rw [List.eq_nil_iff_forall_not_mem]
      intro r hr
      have hle := hcount cmd.chain r (.inl rfl)
      rw [h.removals_of_delete hop, times_nil] at hle
      have hpos : 0 < times (rulesAt t (cmd.table, cmd.chain)) r := times_pos_iff.mpr hr
      omega
    · rw [referenced_iff]
      rintro ⟨c, r, hr, htarget⟩
      have hpos : 0 < times (rulesAt t (cmd.table, c)) r := times_pos_iff.mpr hr
      have hle := hcount c r (.inr htarget)
      have hmem : r ∈ removals (cmd.table, c) (cmd :: cmds) := times_pos_iff.mp (by omega)
      obtain ⟨b, hb, hkey, hremove⟩ := mem_removals_iff.mp hmem
      rw [List.mem_cons] at hb
      obtain rfl | hb := hb
      · rw [hop] at hremove
        cases hremove
      · exact ((List.pairwise_cons.mp h.order).1 b hb hop).2 r hremove (congrArg Prod.fst hkey) htarget
  | remove r =>
    have hle := h.counts (key cmd) r
    rw [removals_cons_self, hop] at hle
    have hpos : 0 < times ([r] ++ removals (key cmd) cmds) r := times_pos_iff.mpr List.mem_cons_self
    exact decide_eq_true (times_pos_iff.mp (Nat.lt_of_lt_of_le hpos hle))
  | new => simp [hop, ChainOp.tearsDown] at htear
  | append r => simp [hop, ChainOp.tearsDown] at htear
  | insert r => simp [hop, ChainOp.tearsDown] at htear

theorem step (h : Undoes target t (cmd :: cmds)) (hexec : exec target standard t cmd = some t') :
    Undoes target t' cmds := by
  have htear := h.tearsDown cmd List.mem_cons_self
  have hexec' : run target standard t [cmd] = some t' := run_cons_eq_some_iff.mpr ⟨t', hexec, rfl⟩
  have hrules (k : τ × ν) : rulesAt t' k = left (rulesAt t k) (removals k [cmd]) :=
    rulesAt_run_left hexec' (fun c hc => by rwa [List.mem_singleton.mp hc]) k
  have hcounts (k : τ × ν) (r : ρ) : times (removals k (cmd :: cmds)) r =
      times (removals k [cmd]) r + times (removals k cmds) r := by
    rw [removals, removals, removals, ← times_append, ← List.filterMap_append]
    rfl
  obtain ⟨hfirst, horder⟩ := List.pairwise_cons.mp h.order
  have hpolicy : ∀ b ∈ cmds, (∀ p, cmd.op = .setPolicy p → key b ≠ key cmd) → policyAt t' (key b) = policyAt t (key b) := by
    intro b hb hne
    refine policyAt_run_of_kept hexec' fun c hc hkey => ?_
    obtain rfl := List.mem_singleton.mp hc
    refine ⟨?_, ?_, fun p hp => hne p hp hkey.symm⟩
    · intro hop
      simp [hop, ChainOp.tearsDown] at htear
    · intro hop
      exact (hfirst b hb hop).1 hkey
  refine ⟨fun b hb => h.tearsDown b (List.mem_cons_of_mem _ hb), ?_, ?_, ?_, horder⟩
  · intro b hb p hop
    have hsome := h.policies b (List.mem_cons_of_mem _ hb) p hop
    by_cases hset : ∃ p', cmd.op = .setPolicy p' ∧ key b = key cmd
    · obtain ⟨p', hop', hkey⟩ := hset
      rw [hkey, policyAt_exec_self hexec, hop']
      rfl
    · rwa [hpolicy b hb fun p' hop' hkey => hset ⟨p', hop', hkey⟩]
  · intro k r
    have hle := h.counts k r
    rw [hcounts] at hle
    rw [hrules, times_left]
    omega
  · intro b hb hop
    obtain ⟨hnone, hcount⟩ := h.deletes b (List.mem_cons_of_mem _ hb) hop
    refine ⟨?_, ?_⟩
    · rwa [hpolicy b hb]
      intro p' hop' hkey
      have hbuiltin := h.policies cmd List.mem_cons_self p' hop'
      rw [← hkey, hnone] at hbuiltin
      cases hbuiltin
    · intro c r hc
      have hle := hcount c r hc
      rw [hcounts] at hle
      rw [hrules, times_left]
      omega

theorem run (h : Undoes target t cmds) : ∃ t₂, run target standard t cmds = some t₂ := by
  induction cmds generalizing t with
  | nil => exact ⟨t, rfl⟩
  | cons cmd cmds ih =>
    have hallowed : RuleTables.allowed target standard t cmd = true := h.allowed
    obtain ⟨t', hexec⟩ := exec_isSome hallowed
    obtain ⟨t₂, hrun⟩ := ih (h.step hexec)
    exact ⟨t₂, run_cons_eq_some_iff.mpr ⟨t', hexec, hrun⟩⟩

end Undoes

end undoing

end exec

end RuleTables
