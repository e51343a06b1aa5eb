import Uno.Core.Exn
import Uno.Lib.Nested
import Uno.Lib.Fold

/-!
# Merging of defaults

`apply_defaults` of nested dictionaries. At every path the result has what the values have there, and what the
defaults have where the values have nothing (`find_applyDefaults`); it raises exactly when some path leads to a
dictionary of the values and to a leaf of the defaults (`applyDefaults_error_iff`).
-/

namespace Uno

open Dict (lookupEntry setEntry)
open Nested (Items Conflict Found)

variable {α : Type}

/-- A dictionary with string keys, whose values are dictionaries or leaves. -/
structure NestedDict (α : Type) where
  items : Items String α
  wf : (Nested.dict items).Wf

namespace NestedDict

def tree (d : NestedDict α) : Nested String α := .dict d.items

def find (d : NestedDict α) (path : List String) : Found α := d.tree.find path

end NestedDict

/-- `ValueError("expected a dictionary", ".".join(current_key))`. -/
def expectedDictionary (currentKey : List String) : Exn :=
  .value ("expected a dictionary, " ++ String.intercalate "." currentKey)

mutual

/-- The loop over the items of `current_defaults`; `result` starts as a copy of `current_values`. -/
def applyRecur (currentValues : Items String α) (parentKey : List String) :
    Items String α → Items String α → Result (Items String α)
  | [], result => .ok result
  | (k, defV) :: rest, result => do
    let v ← applyValue (lookupEntry k currentValues) defV (parentKey ++ [k])
    applyRecur currentValues parentKey rest (setEntry k v result)

/-- The value for a key of the defaults. -/
def applyValue (current : Option (Nested String α)) :
    Nested String α → List String → Result (Nested String α)
  | .leaf d, currentKey =>
    match current with
    | none => .ok (.leaf d)
    | some (.leaf v) => .ok (.leaf v)
    | some (.dict _) => .error (expectedDictionary currentKey)
  | .dict defaults, currentKey =>
    match current with
    | none => .ok (.dict defaults)
    | some (.leaf v) => .ok (.leaf v)
    | some (.dict values) => do
      let merged ← applyRecur values currentKey defaults values
      .ok (.dict merged)

end

/-! ### The loop -/

theorem applyRecur_cons (values : Items String α) (key : List String) (k : String) (defV : Nested String α)
    (rest result : Items String α) :
    applyRecur values key ((k, defV) :: rest) result =
      applyValue (lookupEntry k values) defV (key ++ [k]) >>= fun v =>
        applyRecur values key rest (setEntry k v result) := by
  rw [applyRecur]

theorem applyValue_dict (values defaults : Items String α) (key : List String) :
    applyValue (some (.dict values)) (.dict defaults) key =
      applyRecur values key defaults values >>= fun merged => .ok (.dict merged) := by
  rw [applyValue]

/-- The loop writes the value of every key of the defaults and leaves the other keys alone. -/
theorem lookupEntry_applyRecur {values defaults result merged : Items String α} {key : List String}
    (h : applyRecur values key defaults result = .ok merged) (hnodup : (defaults.map Prod.fst).Nodup) (k : String) :
    match lookupEntry k defaults with
    | none => lookupEntry k merged = lookupEntry k result
    | some defV => ∃ v, applyValue (lookupEntry k values) defV (key ++ [k]) = .ok v ∧
        lookupEntry k merged = some v := by
  induction defaults generalizing result with
  | nil =>
    rw [applyRecur] at h
    injection h with h
    rw [h]
    rfl
  | cons e rest ih =>
    obtain ⟨k₀, defV⟩ := e
    rw [List.map_cons, List.nodup_cons] at hnodup
    rw [applyRecur_cons] at h
    obtain ⟨v, hv, hrest⟩ := Except.bind_eq_ok_iff.mp h
    have hstep := ih hrest hnodup.2
    by_cases hk : k₀ = k
    · subst hk
      have hnone : lookupEntry k₀ rest = none := Dict.lookupEntry_eq_none.mpr hnodup.1
      rw [hnone] at hstep
      rw [lookupEntry, if_pos rfl]
      refine ⟨v, hv, hstep.trans ?_⟩
      rw [Dict.lookupEntry_setEntry, if_pos rfl]
    · rw [Dict.lookupEntry_setEntry, if_neg hk] at hstep
      rw [lookupEntry, if_neg hk]
      exact hstep

theorem applyRecur_error_iff {values defaults result : Items String α} {key : List String}
    (hnodup : (defaults.map Prod.fst).Nodup) :
    (∃ e, applyRecur values key defaults result = .error e) ↔
      ∃ k defV, lookupEntry k defaults = some defV ∧
        ∃ e, applyValue (lookupEntry k values) defV (key ++ [k]) = .error e := by
  induction defaults generalizing result with
  | nil => simp [applyRecur, lookupEntry]
  | cons e rest ih =>
    obtain ⟨k₀, defV⟩ := e
    rw [List.map_cons, List.nodup_cons] at hnodup
    have hnone : lookupEntry k₀ rest = none := Dict.lookupEntry_eq_none.mpr hnodup.1
    have hsplit : (∃ k u, lookupEntry k ((k₀, defV) :: rest) = some u ∧
        ∃ e, applyValue (lookupEntry k values) u (key ++ [k]) = .error e) ↔
          (∃ e, applyValue (lookupEntry k₀ values) defV (key ++ [k₀]) = .error e) ∨
            ∃ k u, lookupEntry k rest = some u ∧ ∃ e, applyValue (lookupEntry k values) u (key ++ [k]) = .error e := by
      constructor
      · rintro ⟨k, u, hu, herror⟩
        by_cases hk : k₀ = k
        · subst hk
          rw [lookupEntry, if_pos rfl, Option.some.injEq] at hu
          exact .inl (hu ▸ herror)
        · rw [lookupEntry, if_neg hk] at hu
          exact .inr ⟨k, u, hu, herror⟩
      · rintro (herror | ⟨k, u, hu, herror⟩)
        · exact ⟨k₀, defV, by rw [lookupEntry, if_pos rfl], herror⟩
        · have hk : k₀ ≠ k := fun heq => by
            rw [← heq, hnone] at hu
            cases hu
          exact ⟨k, u, by rw [lookupEntry, if_neg hk, hu], herror⟩
    rw [hsplit, applyRecur_cons]
    cases hv : applyValue (lookupEntry k₀ values) defV (key ++ [k₀]) with
    | error e => exact iff_of_true ⟨e, rfl⟩ (.inl ⟨e, rfl⟩)
    | ok v =>
      refine (ih hnodup.2).trans (or_iff_right ?_).symm
      rintro ⟨e, he⟩
      cases he

theorem nodup_applyRecur {values defaults result merged : Items String α} {key : List String}
    (h : applyRecur values key defaults result = .ok merged) (hnodup : (result.map Prod.fst).Nodup) :
    (merged.map Prod.fst).Nodup := by
  induction defaults generalizing result with
  | nil =>
    rw [applyRecur] at h
    injection h with h
    exact h ▸ hnodup
  | cons e rest ih =>
    obtain ⟨k₀, defV⟩ := e
    rw [applyRecur_cons] at h
    obtain ⟨v, -, hrest⟩ := Except.bind_eq_ok_iff.mp h
    exact ih hrest (Dict.nodup_setEntry hnodup)

/-! ### The values of the result -/

theorem find_applyValue {defV : Nested String α} (hwf : defV.Wf) {current : Option (Nested String α)}
    {key : List String} {merged : Nested String α} (h : applyValue current defV key = .ok merged)
    (path : List String) : merged.find path = (Nested.findIn current path).orElse (defV.find path) := by
  induction hwf generalizing current key merged path with
  | leaf d =>
    cases current with
    | none =>
      rw [applyValue] at h
      injection h with h
      rw [← h]
      rfl
    | some t =>
      cases t with
      | leaf v =>
        rw [applyValue] at h
        injection h with h
        rw [← h]
        cases path <;> rfl
      | dict values => cases h
  | @dict defaults hnodup _ ih =>
    cases current with
    | none =>
      rw [applyValue] at h
      injection h with h
      rw [← h]
      rfl
    | some t =>
      cases t with
      | leaf v =>
        rw [applyValue] at h
        injection h with h
        rw [← h]
        cases path <;> rfl
      | dict values =>
        rw [applyValue_dict] at h
        obtain ⟨items, hitems, hmerged⟩ := Except.bind_eq_ok_iff.mp h
        injection hmerged with hmerged
        subst hmerged
        cases path with
        | nil => rfl
        | cons k path =>
          show _ = ((Nested.dict values).find (k :: path)).orElse _
          rw [Nested.find_dict_cons, Nested.find_dict_cons, Nested.find_dict_cons]
          have hlookup := lookupEntry_applyRecur hitems hnodup k
          cases hk : lookupEntry k defaults with
          | none =>
            rw [hk] at hlookup
            rw [hlookup]
            exact (Found.orElse_missing _).symm
          | some u =>
            rw [hk] at hlookup
            obtain ⟨v, hv, hmerged⟩ := hlookup
            rw [hmerged]
            exact ih (k, u) ((Dict.lookupEntry_eq_some hnodup).mp hk) hv path

/-- Only a dictionary of the values in the place of a leaf of the defaults raises. -/
theorem applyValue_error_iff {defV : Nested String α} (hwf : defV.Wf) {current : Option (Nested String α)}
    {key : List String} :
    (∃ e, applyValue current defV key = .error e) ↔ ∃ t, current = some t ∧ Conflict t defV := by
  have hnever : ∀ {v : α} {u : Nested String α}, ¬ Conflict (.leaf v) u := by
    rintro v u ⟨path, w, hdict, -⟩
    cases path <;> cases hdict
  induction hwf generalizing current key with
  | leaf d =>
    cases current with
    | none => simp [applyValue]
    | some t =>
      cases t with
      | leaf v => simp [applyValue, hnever]
      | dict values => exact iff_of_true ⟨_, rfl⟩ ⟨_, rfl, [], d, by rw [Nested.find_dict_nil], by rw [Nested.find_leaf_nil]⟩
  | @dict defaults hnodup _ ih =>
    cases current with
    | none => simp [applyValue]
    | some t =>
      cases t with
      | leaf v => simp [applyValue, hnever]
      | dict values =>
        have hbind : (∃ e, applyValue (some (.dict values)) (.dict defaults) key = .error e) ↔
            ∃ e, applyRecur values key defaults values = .error e := by
          rw [applyValue_dict]
          cases applyRecur values key defaults values with
          | error e => exact iff_of_true ⟨e, rfl⟩ ⟨e, rfl⟩
          | ok items => simp [bind, Except.bind]
        rw [hbind, applyRecur_error_iff hnodup]
        simp only [Option.some.injEq, exists_eq_left', Nested.conflict_dict_iff]
        constructor
        · rintro ⟨k, u, hu, herror⟩
          obtain ⟨t, ht, hconflict⟩ := (ih (k, u) ((Dict.lookupEntry_eq_some hnodup).mp hu)).mp herror
          exact ⟨k, t, u, ht, hu, hconflict⟩
        · rintro ⟨k, t, u, ht, hu, hconflict⟩
          exact ⟨k, u, hu, (ih (k, u) ((Dict.lookupEntry_eq_some hnodup).mp hu)).mpr ⟨t, ht, hconflict⟩⟩

theorem wf_applyValue {defV : Nested String α} (hwf : defV.Wf) {current : Option (Nested String α)}
    (hcurrent : ∀ t, current = some t → t.Wf) {key : List String} {merged : Nested String α}
    (h : applyValue current defV key = .ok merged) : merged.Wf := by
  induction hwf generalizing current key merged with
  | leaf d =>
    cases current with
    | none =>
      rw [applyValue] at h
      injection h with h
      exact h ▸ .leaf d
    | some t =>
      cases t with
      | leaf v =>
        rw [applyValue] at h
        injection h with h
        exact h ▸ .leaf v
      | dict values => cases h
  | @dict defaults hnodup hwf ih =>
    cases current with
    | none =>
      rw [applyValue] at h
      injection h with h
      exact h ▸ .dict hnodup hwf
    | some t =>
      cases t with
      | leaf v =>
        rw [applyValue] at h
        injection h with h
        exact h ▸ .leaf v
      | dict values =>
        rw [applyValue_dict] at h
        obtain ⟨items, hitems, hmerged⟩ := Except.bind_eq_ok_iff.mp h
        injection hmerged with hmerged
        subst hmerged
        cases hcurrent _ rfl with
        | dict hvalues hvaluesWf =>
        have hitemsNodup := nodup_applyRecur hitems hvalues
        have hin : ∀ {k t}, lookupEntry k values = some t → t.Wf := fun hk =>
          hvaluesWf _ ((Dict.lookupEntry_eq_some hvalues).mp hk)
        refine .dict hitemsNodup fun ⟨k, v⟩ hmem => ?_
        have hk := (Dict.lookupEntry_eq_some hitemsNodup).mpr hmem
        have hlookup := lookupEntry_applyRecur hitems hnodup k
        cases hd : lookupEntry k defaults with
        | none =>
          rw [hd] at hlookup
          exact hin (hlookup.symm.trans hk)
        | some u =>
          rw [hd] at hlookup
          obtain ⟨w, hw, hmerged⟩ := hlookup
          obtain rfl : w = v := Option.some.inj (hmerged.symm.trans hk)
          exact ih (k, u) ((Dict.lookupEntry_eq_some hnodup).mp hd) (fun t ht => hin ht) hw

/-! ### The merge of dictionaries -/

/-- `apply_defaults`. -/
def applyDefaults (values defaults : NestedDict α) : Result (NestedDict α) :=
  match h : applyValue (some values.tree) defaults.tree [] with
  | .error e => .error e
  | .ok (.leaf _) => .error (expectedDictionary [])
  | .ok (.dict merged) =>
    .ok ⟨merged, wf_applyValue defaults.wf (fun _ ht => Option.some.inj ht ▸ values.wf) h⟩

section merge
variable {a b c d m : NestedDict α}

theorem applyDefaults_eq_ok_iff :
    applyDefaults a d = .ok m ↔ applyValue (some a.tree) d.tree [] = .ok m.tree := by
  obtain ⟨items, hwf⟩ := m
  unfold applyDefaults
  split
  · next e h => simp [h]
  · next v h => simp only [NestedDict.tree] at h ⊢; simp [h]
  · next merged h => simp only [NestedDict.tree] at h ⊢; simp [h]

theorem find_applyDefaults (h : applyDefaults a d = .ok m) (path : List String) :
    m.find path = (a.find path).orElse (d.find path) :=
  find_applyValue d.wf (applyDefaults_eq_ok_iff.mp h) path

theorem applyDefaults_error_iff : (∃ e, applyDefaults a d = .error e) ↔ Conflict a.tree d.tree := by
  have hvalue : (∃ e, applyDefaults a d = .error e) ↔
      ∃ e, applyValue (some a.tree) d.tree [] = .error e := by
    have hdict : ∀ v, applyValue (some a.tree) d.tree [] ≠ .ok (.leaf v) := by
      intro v h
      have hroot := find_applyValue d.wf h []
      cases hroot
    unfold applyDefaults
    split
    · next e h => simp [h]
    · next v h => exact absurd h (hdict v)
    · next merged h => simp [h]
  have hiff : (∃ e, applyValue (some a.tree) d.tree [] = .error e) ↔
      ∃ t, some a.tree = some t ∧ Conflict t d.tree := applyValue_error_iff d.wf
  rw [hvalue, hiff]
  simp only [Option.some.injEq, exists_eq_left']

theorem exists_applyDefaults (h : ¬ Conflict a.tree d.tree) : ∃ m, applyDefaults a d = .ok m := by
  cases hm : applyDefaults a d with
  | error e => exact absurd (applyDefaults_error_iff.mp ⟨e, hm⟩) h
  | ok m => exact ⟨m, rfl⟩

/-- Applying the same defaults again succeeds and changes nothing. -/
theorem applyDefaults_again (h : applyDefaults a d = .ok m) :
    ∃ m', applyDefaults m d = .ok m' ∧ m'.tree.Same m.tree := by
  have hfind := find_applyDefaults h
  have hnone : ¬ Conflict m.tree d.tree := by
    rintro ⟨path, v, hdict, hleaf⟩
    have hpath : (a.find path).orElse (d.find path) = .dict := (hfind path).symm.trans hdict
    have hleaf' : d.find path = .leaf v := hleaf
    rw [hleaf'] at hpath
    cases ha : a.find path with
    | dict =>
      obtain ⟨e, he⟩ := applyDefaults_error_iff.mpr ⟨path, v, ha, hleaf⟩
      rw [he] at h
      cases h
    | missing | hidden | leaf w => rw [ha] at hpath; cases hpath
  obtain ⟨m', hm'⟩ := exists_applyDefaults hnone
  refine ⟨m', hm', fun path => ?_⟩
  calc m'.find path = (m.find path).orElse (d.find path) := find_applyDefaults hm' path
    _ = ((a.find path).orElse (d.find path)).orElse (d.find path) := by rw [hfind path]
    _ = (a.find path).orElse (d.find path) := Found.orElse_self_right _ _
    _ = m.find path := (hfind path).symm

theorem applyDefaults_assoc {x y : NestedDict α} (hx : applyDefaults a b >>= (applyDefaults · c) = .ok x)
    (hy : applyDefaults b c >>= (applyDefaults a ·) = .ok y) : x.tree.Same y.tree := by
  obtain ⟨ab, hab, hx⟩ := Except.bind_eq_ok_iff.mp hx
  obtain ⟨bc, hbc, hy⟩ := Except.bind_eq_ok_iff.mp hy
  intro path
  calc x.find path = (ab.find path).orElse (c.find path) := find_applyDefaults hx path
    _ = ((a.find path).orElse (b.find path)).orElse (c.find path) := by rw [find_applyDefaults hab]
    _ = (a.find path).orElse ((b.find path).orElse (c.find path)) := Found.orElse_assoc _ _ _
    _ = (a.find path).orElse (bc.find path) := by rw [find_applyDefaults hbc]
    _ = y.find path := (find_applyDefaults hy path).symm

end merge

end Uno
