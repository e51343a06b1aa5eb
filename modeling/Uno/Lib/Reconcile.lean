import Uno.Lib.Dict

/-!
# Reconciling entities with a dictionary

A set of entities with distinct keys is made to agree with a dictionary of arguments: entities whose key is in the
dictionary are configured, missing ones are created first, and the others are removed (`reconcile`). Configuring an
entity reports pending changes of it along with new ones (`Reports`), and may keep the old value. The outcome holds the
arguments, and the change is reported exactly, under the condition of `reconciled_iff`.
-/

namespace Reconcile

/-- How entities of type `ε` are created for keys, and configured with arguments. -/
structure Rules (κ ε α : Type) where
  key : ε → κ
  create : κ → ε
  configure : ε → α → ε
  /-- Whether configuring reports a change, read off the configured entity. -/
  reports : ε → Bool
  key_create : ∀ k, key (create k) = k
  key_configure : ∀ e a, key (configure e a) = key e

variable {κ ε α υ : Type} [DecidableEq κ] (R : Rules κ ε α)

/-- The entity with a key. -/
def find (es : List ε) (k : κ) : Option ε := es.find? fun e => R.key e = k

structure Outcome (ε : Type) where
  configured : List ε
  gone : List ε
  changed : Bool

def reconcile (es : List ε) (args : Dict κ α) : Outcome ε :=
  let (configured, changed) := args.entries.foldl (fun acc arg =>
    let found := find R es arg.1
    let entity := R.configure (found.getD (R.create arg.1)) arg.2
    (acc.1 ++ [entity], acc.2 || found.isNone || R.reports entity)) ([], false)
  let gone := es.filter fun e => R.key e ∉ configured.map R.key
  ⟨configured, gone, changed || gone ≠ []⟩

/-! ### The outcome -/

section outcome
variable {R} {es : List ε} {args : Dict κ α} {k : κ} {e : ε}

theorem key_of_find (h : find R es k = some e) : R.key e = k := by
  simpa using List.find?_some h

theorem mem_of_find (h : find R es k = some e) : e ∈ es := List.mem_of_find?_eq_some h

theorem find_of_mem (hes : (es.map R.key).Nodup) (he : e ∈ es) : find R es (R.key e) = some e := by
  unfold find
  cases hfind : es.find? fun x => R.key x = R.key e with
  | none => exact absurd (List.find?_eq_none.mp hfind e he) (by simp)
  | some x => rw [List.inj_on_of_nodup_map hes (List.mem_of_find?_eq_some hfind) he (key_of_find hfind)]

/-- The entity that is configured for a key, old or new. -/
def target (R : Rules κ ε α) (es : List ε) (k : κ) : ε := (find R es k).getD (R.create k)

theorem key_target : R.key (target R es k) = k := by
  unfold target
  cases h : find R es k with
  | none => exact R.key_create k
  | some e => exact key_of_find h

theorem foldl_reconcile (l : List (κ × α)) (acc : List ε × Bool) :
    l.foldl (fun acc arg => (acc.1 ++ [R.configure ((find R es arg.1).getD (R.create arg.1)) arg.2],
      acc.2 || (find R es arg.1).isNone || R.reports (R.configure ((find R es arg.1).getD (R.create arg.1)) arg.2))) acc =
      (acc.1 ++ l.map (fun arg => R.configure (target R es arg.1) arg.2),
        acc.2 || l.any fun arg => (find R es arg.1).isNone || R.reports (R.configure (target R es arg.1) arg.2)) := by
  induction l generalizing acc with
  | nil => simp
  | cons arg rest ih =>
    rw [List.foldl_cons, ih, List.map_cons, List.any_cons]
    simp [target, List.append_assoc, Bool.or_assoc]

theorem configured_eq : (reconcile R es args).configured =
    args.entries.map fun arg => R.configure (target R es arg.1) arg.2 := by
  unfold reconcile
  rw [foldl_reconcile]
  rfl

theorem map_key_configured : (reconcile R es args).configured.map R.key = args.keys := by
  rw [configured_eq, List.map_map]
  refine List.map_congr_left fun arg _ => ?_
  rw [Function.comp_apply, R.key_configure, key_target]

theorem gone_eq : (reconcile R es args).gone = es.filter fun e => R.key e ∉ args.keys := by
  have hkeys : (reconcile R es args).configured.map R.key = args.keys := map_key_configured
  rw [← hkeys]
  rfl

theorem mem_gone : e ∈ (reconcile R es args).gone ↔ e ∈ es ∧ R.key e ∉ args.keys := by
  rw [gone_eq, List.mem_filter, decide_eq_true_eq]

theorem find_configured :
    find R (reconcile R es args).configured k = (args.get? k).map fun a => R.configure (target R es k) a := by
  have hmem : ∀ a, args.get? k = some a →
      R.configure (target R es k) a ∈ (reconcile R es args).configured := by
    intro a ha
    rw [configured_eq]
    exact List.mem_map.mpr ⟨(k, a), Dict.get?_eq_some_iff.mp ha, rfl⟩
  cases hget : args.get? k with
  | none =>
    rw [find, Option.map_none, List.find?_eq_none]
    intro e he hkey
    have hk : k ∈ args.keys := by
      have hkeys : (reconcile R es args).configured.map R.key = args.keys := map_key_configured
      rw [← hkeys, ← of_decide_eq_true hkey]
      exact List.mem_map_of_mem he
    exact Dict.get?_eq_none_iff.mp hget hk
  | some a =>
    have hnodup : ((reconcile R es args).configured.map R.key).Nodup := by
      rw [map_key_configured]
      exact args.keys_nodup
    have hfind := find_of_mem hnodup (hmem a hget)
    rwa [R.key_configure, key_target] at hfind

theorem changed_iff : (reconcile R es args).changed = true ↔
    (∃ k a, args.get? k = some a ∧ (find R es k = none ∨ R.reports (R.configure (target R es k) a) = true)) ∨
      ∃ e ∈ es, R.key e ∉ args.keys := by
  have hchanged : (reconcile R es args).changed =
      ((args.entries.any fun arg => (find R es arg.1).isNone || R.reports (R.configure (target R es arg.1) arg.2)) ||
        decide ((reconcile R es args).gone ≠ [])) := by
    unfold reconcile
    rw [foldl_reconcile]
    simp
  rw [hchanged, Bool.or_eq_true, decide_eq_true_eq, List.any_eq_true]
  refine or_congr ?_ ?_
  · constructor
    · rintro ⟨arg, harg, hreport⟩
      rw [Bool.or_eq_true, Option.isNone_iff_eq_none] at hreport
      exact ⟨arg.1, arg.2, Dict.get?_eq_some_iff.mpr harg, hreport⟩
    · rintro ⟨k, a, hget, hreport⟩
      refine ⟨(k, a), Dict.get?_eq_some_iff.mp hget, ?_⟩
      rwa [Bool.or_eq_true, Option.isNone_iff_eq_none]
  · constructor
    · intro hgone
      obtain ⟨e, he⟩ := List.exists_mem_of_ne_nil _ hgone
      exact ⟨e, mem_gone.mp he⟩
    · rintro ⟨e, he⟩
      exact List.ne_nil_of_mem (mem_gone.mpr he)

end outcome

/-! ### Exact reconciliation -/

/-- An entity holds a value. Configuring it reports the changes that are pending and that of the value. -/
structure Reports (R : Rules κ ε α) (value : ε → υ) (pending : ε → Bool) : Prop where
  reports : ∀ e a, R.reports (R.configure e a) = true ↔ pending e = true ∨ value (R.configure e a) ≠ value e

/-- The entities hold the values that are wanted, and the change that is reported is that of the values. -/
structure Reconciled (R : Rules κ ε α) (value : ε → υ) (want : α → υ) (es : List ε) (args : Dict κ α) : Prop where
  held : ∀ k, (find R (reconcile R es args).configured k).map value = (args.get? k).map want
  nodup : ((reconcile R es args).configured.map R.key).Nodup
  changed : (reconcile R es args).changed = true ↔
    ∃ k, (find R (reconcile R es args).configured k).map value ≠ (find R es k).map value

/-- Reconciliation is exact if and only if the entities that are kept take the values that are wanted, and nothing is
pending when they hold them already. -/
theorem reconciled_iff {R : Rules κ ε α} {value : ε → υ} {pending : ε → Bool} (hR : Reports R value pending)
    {want : α → υ} (hcreate : ∀ k a, value (R.configure (R.create k) a) = want a) {es : List ε} {args : Dict κ α}
    (hes : (es.map R.key).Nodup) : Reconciled R value want es args ↔
      (∀ e ∈ es, ∀ a, args.get? (R.key e) = some a → value (R.configure e a) = want a) ∧
      ((∀ k, (find R es k).map value = (args.get? k).map want) → ∀ e ∈ es, pending e = false) := by
  have hheld : (∀ k, (find R (reconcile R es args).configured k).map value = (args.get? k).map want) ↔
      ∀ e ∈ es, ∀ a, args.get? (R.key e) = some a → value (R.configure e a) = want a := by
    constructor
    · intro h e he a ha
      have hk := h (R.key e)
      rw [find_configured, ha, target, find_of_mem hes he] at hk
      exact Option.some.inj hk
    · intro h k
      rw [find_configured]
      cases hget : args.get? k with
      | none => rfl
      | some a =>
        refine congrArg some ?_
        unfold target
        cases hfind : find R es k with
        | none => exact hcreate k a
        | some e => exact h e (mem_of_find hfind) a (by rwa [key_of_find hfind])
  have hnodup : ((reconcile R es args).configured.map R.key).Nodup := by
    rw [map_key_configured]
    exact args.keys_nodup
  have hiff : Reconciled R value want es args ↔
      (∀ k, (find R (reconcile R es args).configured k).map value = (args.get? k).map want) ∧
      ((reconcile R es args).changed = true ↔
        ∃ k, (find R (reconcile R es args).configured k).map value ≠ (find R es k).map value) :=
    ⟨fun h => ⟨h.held, h.changed⟩, fun h => ⟨h.1, hnodup, h.2⟩⟩
  rw [hiff, ← hheld]
  refine and_congr_right fun hafter => ?_
  simp only [hafter]
  constructor
  · intro hchanged hbefore e he
    refine Bool.eq_false_iff.mpr fun hpending => ?_
    have hk := hbefore (R.key e)
    rw [find_of_mem hes he] at hk
    obtain ⟨a, ha, -⟩ := Option.map_eq_some_iff.mp hk.symm
    have hreports : R.reports (R.configure (target R es (R.key e)) a) = true := by
      rw [target, find_of_mem hes he]
      exact (hR.reports e a).mpr (.inl hpending)
    obtain ⟨k, hne⟩ := hchanged.mp (changed_iff.mpr (.inl ⟨_, a, ha, .inr hreports⟩))
    exact hne (hbefore k).symm
  · intro hquiet
    rw [changed_iff]
    constructor
    · intro hchanged
      by_contra hsame
      have hbefore : ∀ k, (find R es k).map value = (args.get? k).map want := by
        intro k
        by_contra hne
        exact hsame ⟨k, fun heq => hne heq.symm⟩
      rcases hchanged with ⟨k, a, ha, hnone | hreports⟩ | ⟨e, he, hgone⟩
      · have hk := hbefore k
        rw [ha, hnone] at hk
        cases hk
      · have hk := hbefore k
        rw [ha] at hk
        obtain ⟨e, hfind, hvalue⟩ := Option.map_eq_some_iff.mp hk
        rw [target, hfind] at hreports
        rcases (hR.reports e a).mp hreports with hpending | hne
        · rw [hquiet hbefore e (mem_of_find hfind)] at hpending
          cases hpending
        · have hwant := hheld.mp hafter e (mem_of_find hfind) a (by rwa [key_of_find hfind])
          exact hne (hwant.trans hvalue.symm)
      · have hk := hbefore (R.key e)
        rw [find_of_mem hes he, Dict.get?_eq_none_iff.mpr hgone] at hk
        cases hk
    · rintro ⟨k, hne⟩
      cases hget : args.get? k with
      | none =>
        cases hfind : find R es k with
        | none => simp [hget, hfind] at hne
        | some e =>
          refine .inr ⟨e, mem_of_find hfind, ?_⟩
          rw [key_of_find hfind]
          exact Dict.get?_eq_none_iff.mp hget
      | some a =>
        refine .inl ⟨k, a, hget, ?_⟩
        cases hfind : find R es k with
        | none => exact .inl rfl
        | some e =>
          have hwant := hheld.mp hafter e (mem_of_find hfind) a (by rwa [key_of_find hfind])
          rw [target, hfind]
          refine .inr ((hR.reports e a).mpr (.inr fun heq => hne ?_))
          rw [hget, hfind]
          exact congrArg some (hwant.symm.trans heq)

end Reconcile
