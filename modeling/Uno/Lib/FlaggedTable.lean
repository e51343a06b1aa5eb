import Mathlib.Data.List.Nodup
import Mathlib.Data.List.Basic

/-!
# Tables with flagged rows

A table whose rows carry a key, a value and a flag. A row has an id that is never used again, and no two
rows have the same key and the same flag. `insert` adds a row without flag, `flag` sets the flag of a row
and fails when the key has a flagged row already, `delete` removes a row by its id. Flagging or deleting a
list of rows comes down to the membership of their ids (`mem_flagAll`, `mem_deleteAll`).
-/

/-- A row of a flagged table. -/
structure FlaggedRow (κ ν : Type) where
  id : ℕ
  key : κ
  value : ν
  flag : Bool
  deriving DecidableEq

structure FlaggedTable (κ ν : Type) where
  rows : List (FlaggedRow κ ν)
  /-- The last id given out. -/
  lastId : ℕ
  ids_nodup : (rows.map FlaggedRow.id).Nodup
  ids_le : ∀ r ∈ rows, r.id ≤ lastId
  unique : (rows.map fun r => (r.key, r.flag)).Nodup

namespace FlaggedTable

variable {κ ν : Type}

def empty : FlaggedTable κ ν := ⟨[], 0, .nil, by simp, .nil⟩

theorem eq_of_id {t : FlaggedTable κ ν} {r r' : FlaggedRow κ ν} (h : r ∈ t.rows) (h' : r' ∈ t.rows)
    (hid : r.id = r'.id) : r = r' :=
  List.inj_on_of_nodup_map t.ids_nodup h h' hid

theorem eq_of_key {t : FlaggedTable κ ν} {r r' : FlaggedRow κ ν} (h : r ∈ t.rows) (h' : r' ∈ t.rows)
    (hkey : r.key = r'.key) (hflag : r.flag = r'.flag) : r = r' :=
  List.inj_on_of_nodup_map t.unique h h' (Prod.ext hkey hflag)

/-! ### Insertion -/

section insert
variable [DecidableEq κ]

/-- A new row without flag; fails when the key has one. -/
def insert (t : FlaggedTable κ ν) (key : κ) (value : ν) : Option (FlaggedTable κ ν) :=
  if h : ∀ r ∈ t.rows, ¬ (r.key = key ∧ r.flag = false) then
    some {
      rows := t.rows ++ [⟨t.lastId + 1, key, value, false⟩]
      lastId := t.lastId + 1
      ids_nodup := by
        rw [List.map_append]
        refine t.ids_nodup.append (List.nodup_singleton _) fun i hi hi' => ?_
        obtain ⟨r, hr, rfl⟩ := List.mem_map.mp hi
        have hle := t.ids_le r hr
        have heq : r.id = t.lastId + 1 := List.mem_singleton.mp hi'
        omega
      ids_le := by
        intro r hr
        rcases List.mem_append.mp hr with hr | hr
        · exact Nat.le_succ_of_le (t.ids_le r hr)
        · obtain rfl := List.mem_singleton.mp hr
          exact Nat.le_refl _
      unique := by
        rw [List.map_append]
        refine t.unique.append (List.nodup_singleton _) fun k hk hk' => ?_
        obtain ⟨r, hr, rfl⟩ := List.mem_map.mp hk
        exact h r hr (Prod.mk.inj (List.mem_singleton.mp hk')) }
  else none

variable {t t' : FlaggedTable κ ν} {key : κ} {value : ν} {r : FlaggedRow κ ν}

variable (value) in
theorem insert_eq_some (h : ∀ r ∈ t.rows, r.key = key → r.flag = true) :
    ∃ t', t.insert key value = some t' ∧ t'.rows = t.rows ++ [⟨t.lastId + 1, key, value, false⟩] ∧
      t'.lastId = t.lastId + 1 := by
  have hfresh : ∀ r ∈ t.rows, ¬ (r.key = key ∧ r.flag = false) := by
    rintro r hr ⟨hkey, hflag⟩
    rw [h r hr hkey] at hflag
    cases hflag
  exact ⟨_, dif_pos hfresh, rfl, rfl⟩

end insert

/-! ### Flags -/

/-- Set the flag of the row with an id, if there is one; fails when its key has a flagged row already. -/
def flag [DecidableEq κ] (t : FlaggedTable κ ν) (id : ℕ) : Option (FlaggedTable κ ν) :=
  if h : ∀ r ∈ t.rows, r.id = id → ∀ r' ∈ t.rows, r'.id ≠ id → r'.key = r.key → r'.flag = false then
    some {
      rows := t.rows.map fun r => if r.id = id then { r with flag := true } else r
      lastId := t.lastId
      ids_nodup := by
        rw [List.map_map]
        refine (List.map_congr_left fun r _ => ?_).symm ▸ t.ids_nodup
        simp only [Function.comp_apply]
        split_ifs <;> rfl
      ids_le := by
        intro r hr
        obtain ⟨r₀, hr₀, rfl⟩ := List.mem_map.mp hr
        split_ifs
        · exact t.ids_le r₀ hr₀
        · exact t.ids_le r₀ hr₀
      unique := by
        rw [List.map_map]
        refine List.Nodup.map_on (fun r hr r' hr' heq => ?_) (List.Nodup.of_map _ t.ids_nodup)
        simp only [Function.comp_apply] at heq
        by_cases hid : r.id = id
        · by_cases hid' : r'.id = id
          · exact t.eq_of_id hr hr' (hid.trans hid'.symm)
          · rw [if_pos hid, if_neg hid', Prod.mk.injEq] at heq
            have := h r hr hid r' hr' hid' heq.1.symm
            rw [this] at heq
            cases heq.2
        · by_cases hid' : r'.id = id
          · rw [if_neg hid, if_pos hid', Prod.mk.injEq] at heq
            have := h r' hr' hid' r hr hid heq.1
            rw [this] at heq
            cases heq.2
          · rw [if_neg hid, if_neg hid', Prod.mk.injEq] at heq
            exact t.eq_of_key hr hr' heq.1 heq.2 }
  else none

/-- Remove the row with an id, if there is one. -/
def delete (t : FlaggedTable κ ν) (id : ℕ) : FlaggedTable κ ν where
  rows := t.rows.filter fun r => r.id ≠ id
  lastId := t.lastId
  ids_nodup := t.ids_nodup.sublist (List.filter_sublist.map _)
  ids_le := fun r hr => t.ids_le r (List.mem_of_mem_filter hr)
  unique := t.unique.sublist (List.filter_sublist.map _)

/-- Flag rows one after the other. -/
def flagAll [DecidableEq κ] (t : FlaggedTable κ ν) (ids : List ℕ) : Option (FlaggedTable κ ν) :=
  ids.foldlM flag t

/-- Delete rows one after the other. -/
def deleteAll (t : FlaggedTable κ ν) (ids : List ℕ) : FlaggedTable κ ν := ids.foldl delete t

variable {t t' : FlaggedTable κ ν} {id : ℕ} {ids : List ℕ} {r : FlaggedRow κ ν}

theorem mem_delete : r ∈ (t.delete id).rows ↔ r ∈ t.rows ∧ r.id ≠ id := by
  simp [delete]

theorem mem_deleteAll : r ∈ (t.deleteAll ids).rows ↔ r ∈ t.rows ∧ r.id ∉ ids := by
  induction ids generalizing t with
  | nil => simp [deleteAll]
  | cons i rest ih =>
    change r ∈ ((t.delete i).deleteAll rest).rows ↔ _
    rw [ih, mem_delete, List.mem_cons, not_or, and_assoc]

@[simp] theorem lastId_deleteAll : (t.deleteAll ids).lastId = t.lastId := by
  induction ids generalizing t with
  | nil => rfl
  | cons i rest ih => exact ih

section flag
variable [DecidableEq κ]

theorem flag_eq_some_iff (t : FlaggedTable κ ν) (id : ℕ) : (∃ t', t.flag id = some t') ↔
    ∀ r ∈ t.rows, r.id = id → ∀ r' ∈ t.rows, r'.id ≠ id → r'.key = r.key → r'.flag = false := by
  unfold flag
  split_ifs with h
  · exact iff_of_true ⟨_, rfl⟩ h
  · exact iff_of_false nofun h

theorem rows_flag (h : t.flag id = some t') :
    t'.rows = t.rows.map fun r => if r.id = id then { r with flag := true } else r := by
  unfold flag at h
  split_ifs at h
  cases h
  rfl

theorem lastId_flag (h : t.flag id = some t') : t'.lastId = t.lastId := by
  unfold flag at h
  split_ifs at h
  cases h
  rfl

theorem mem_flag (h : t.flag id = some t') :
    r ∈ t'.rows ↔ r ∈ t.rows ∧ r.id ≠ id ∨ ∃ r₀ ∈ t.rows, r₀.id = id ∧ r = { r₀ with flag := true } := by
  rw [rows_flag h, List.mem_map]
  constructor
  · rintro ⟨r₀, hr₀, rfl⟩
    split_ifs with hid
    · exact .inr ⟨r₀, hr₀, hid, rfl⟩
    · exact .inl ⟨hr₀, hid⟩
  · rintro (⟨hr, hid⟩ | ⟨r₀, hr₀, hid, rfl⟩)
    · exact ⟨r, hr, if_neg hid⟩
    · exact ⟨r₀, hr₀, if_pos hid⟩

theorem mem_flagAll (h : t.flagAll ids = some t') :
    r ∈ t'.rows ↔ r ∈ t.rows ∧ r.id ∉ ids ∨ ∃ r₀ ∈ t.rows, r₀.id ∈ ids ∧ r = { r₀ with flag := true } := by
  induction ids generalizing t with
  | nil =>
    cases h
    simp
  | cons i rest ih =>
    obtain ⟨t₁, ht₁, hrest⟩ := Option.bind_eq_some_iff.mp h
    rw [ih hrest]
    constructor
    · rintro (⟨hr, hrest⟩ | ⟨r₀, hr₀, hid, rfl⟩)
      · rcases (mem_flag ht₁).mp hr with ⟨hr, hi⟩ | ⟨r₁, hr₁, hi, rfl⟩
        · exact .inl ⟨hr, by simp [hi, hrest]⟩
        · exact .inr ⟨r₁, hr₁, by simp [hi], rfl⟩
      · rcases (mem_flag ht₁).mp hr₀ with ⟨hr, hi⟩ | ⟨r₁, hr₁, hi, rfl⟩
        · exact .inr ⟨r₀, hr, by simp [hid], rfl⟩
        · exact .inr ⟨r₁, hr₁, by simp [hi], rfl⟩
    · rintro (⟨hr, hids⟩ | ⟨r₀, hr₀, hids, rfl⟩)
      · rw [List.mem_cons, not_or] at hids
        exact .inl ⟨(mem_flag ht₁).mpr (.inl ⟨hr, hids.1⟩), hids.2⟩
      · by_cases hrest : r₀.id ∈ rest
        · by_cases hi : r₀.id = i
          · exact .inr ⟨{ r₀ with flag := true }, (mem_flag ht₁).mpr (.inr ⟨r₀, hr₀, hi, rfl⟩), hrest, rfl⟩
          · exact .inr ⟨r₀, (mem_flag ht₁).mpr (.inl ⟨hr₀, hi⟩), hrest, rfl⟩
        · have hi : r₀.id = i := (List.mem_cons.mp hids).resolve_right hrest
          exact .inl ⟨(mem_flag ht₁).mpr (.inr ⟨r₀, hr₀, hi, rfl⟩), hrest⟩

theorem lastId_flagAll (h : t.flagAll ids = some t') : t'.lastId = t.lastId := by
  induction ids generalizing t with
  | nil => cases h; rfl
  | cons i rest ih =>
    obtain ⟨t₁, ht₁, hrest⟩ := Option.bind_eq_some_iff.mp h
    rw [ih hrest, lastId_flag ht₁]

theorem exists_flagAll
    (h : ∀ r ∈ t.rows, r.id ∈ ids → ∀ r' ∈ t.rows, r'.id ≠ r.id → r'.key = r.key → r'.flag = false) :
    ∃ t', t.flagAll ids = some t' := by
  induction ids generalizing t with
  | nil => exact ⟨t, rfl⟩
  | cons i rest ih =>
    obtain ⟨t₁, ht₁⟩ := (flag_eq_some_iff t i).mpr fun r hr hi r' hr' hne hkey =>
      h r hr (by simp [hi]) r' hr' (hi ▸ hne) hkey
    obtain ⟨t', ht'⟩ := ih (t := t₁) fun r hr hid r' hr' hne hkey => by
      have hmem : r.id ∈ i :: rest := List.mem_cons_of_mem _ hid
      rcases (mem_flag ht₁).mp hr with ⟨hr, hi⟩ | ⟨r₀, hr₀, hi, rfl⟩
      · rcases (mem_flag ht₁).mp hr' with ⟨hr', -⟩ | ⟨r₀, hr₀, hi₀, rfl⟩
        · exact h r hr hmem r' hr' hne hkey
        · -- the row that was just flagged has another key
          have hflag₀ := h r hr hmem r₀ hr₀ hne hkey
          have hflag := h r₀ hr₀ (by simp [hi₀]) r hr hne.symm hkey.symm
          obtain rfl := t.eq_of_key hr₀ hr hkey (hflag₀.trans hflag.symm)
          exact absurd hi₀ hi
      · rcases (mem_flag ht₁).mp hr' with ⟨hr', -⟩ | ⟨r₁, hr₁, hi₁, rfl⟩
        · exact h r₀ hr₀ hmem r' hr' hne hkey
        · exact absurd (hi₁.trans hi.symm) hne
    exact ⟨t', by change (t.flag i >>= _) = _; rw [ht₁]; exact ht'⟩

end flag

/-! ### Rows with a flag -/

section add
variable [DecidableEq κ]

/-- A new row, flagged at once if asked for. -/
def add (t : FlaggedTable κ ν) (key : κ) (value : ν) (flag : Bool) : Option (FlaggedTable κ ν) := do
  let t' ← t.insert key value
  if flag then t'.flag t'.lastId else some t'

/-- New rows with the same flag, one after the other. -/
def addAll (t : FlaggedTable κ ν) (rows : List (κ × ν)) (flag : Bool) : Option (FlaggedTable κ ν) :=
  rows.foldlM (fun t e => t.add e.1 e.2 flag) t

variable {key : κ} {value : ν} {b : Bool} {rows : List (κ × ν)}

variable (value) in
theorem exists_add (h : ∀ r ∈ t.rows, r.key = key → r.flag = true ∧ b = false) :
    ∃ t', t.add key value b = some t' ∧
      ∀ r, r ∈ t'.rows ↔ r ∈ t.rows ∨ r = ⟨t.lastId + 1, key, value, b⟩ := by
  obtain ⟨t₁, hinsert, hrows, hlast⟩ := insert_eq_some value fun r hr hkey => (h r hr hkey).1
  rw [add, hinsert]
  cases b with
  | false => exact ⟨t₁, rfl, fun r => by rw [hrows, List.mem_append, List.mem_singleton]⟩
  | true =>
    have hother : ∀ r ∈ t.rows, r.id ≠ t.lastId + 1 ∧ r.key ≠ key := by
      intro r hr
      have hle := t.ids_le r hr
      exact ⟨by omega, fun hkey => Bool.noConfusion (h r hr hkey).2⟩
    have hmem : ∀ r, r ∈ t₁.rows ↔ r ∈ t.rows ∨ r = ⟨t.lastId + 1, key, value, false⟩ := fun r => by
      rw [hrows, List.mem_append, List.mem_singleton]
    obtain ⟨t₂, hflag⟩ := (flag_eq_some_iff t₁ (t.lastId + 1)).mpr fun r hr hid r' hr' hid' hkey => by
      rcases (hmem r).mp hr with hr | rfl
      · exact absurd hid (hother r hr).1
      · rcases (hmem r').mp hr' with hr' | rfl
        · exact absurd hkey (hother r' hr').2
        · exact absurd rfl hid'
    refine ⟨t₂, by simpa [hlast] using hflag, fun r => ?_⟩
    rw [mem_flag hflag]
    constructor
    · rintro (⟨hr, hid⟩ | ⟨r₀, hr₀, hid, rfl⟩)
      · rcases (hmem r).mp hr with hr | rfl
        · exact .inl hr
        · exact absurd rfl hid
      · rcases (hmem r₀).mp hr₀ with hr₀ | rfl
        · exact absurd hid (hother r₀ hr₀).1
        · exact .inr rfl
    · rintro (hr | rfl)
      · exact .inl ⟨(hmem r).mpr (.inl hr), (hother r hr).1⟩
      · exact .inr ⟨_, (hmem _).mpr (.inr rfl), rfl, rfl⟩

/-- The rows after adding rows with distinct keys: those there were, and for each new one a row. -/
theorem exists_addAll (hnodup : (rows.map Prod.fst).Nodup)
    (h : ∀ r ∈ t.rows, r.key ∈ rows.map Prod.fst → r.flag = true ∧ b = false) :
    ∃ t', t.addAll rows b = some t' ∧
      (∀ r ∈ t.rows, r ∈ t'.rows) ∧ (∀ r ∈ t'.rows, r ∈ t.rows ∨ (r.key, r.value) ∈ rows ∧ r.flag = b) ∧
      ∀ e ∈ rows, ∃ r ∈ t'.rows, r.key = e.1 ∧ r.value = e.2 ∧ r.flag = b := by
  induction rows generalizing t with
  | nil => exact ⟨t, rfl, fun r hr => hr, fun r hr => .inl hr, nofun⟩
  | cons e rest ih =>
    rw [List.map_cons, List.nodup_cons] at hnodup
    obtain ⟨t₁, hadd, hmem⟩ := exists_add e.2 (fun r hr (hkey : r.key = e.1) => h r hr (by simp [hkey]))
    obtain ⟨t', hrest, hkeep, hfrom, hnew⟩ := ih (t := t₁) hnodup.2 fun r hr hkey => by
      rcases (hmem r).mp hr with hr | rfl
      · exact h r hr (List.mem_cons_of_mem _ hkey)
      · exact absurd hkey hnodup.1
    have hmine : (⟨t.lastId + 1, e.1, e.2, b⟩ : FlaggedRow κ ν) ∈ t'.rows := hkeep _ ((hmem _).mpr (.inr rfl))
    refine ⟨t', by rw [addAll, List.foldlM_cons, hadd]; exact hrest,
      fun r hr => hkeep r ((hmem r).mpr (.inl hr)), fun r hr => ?_, fun e' he' => ?_⟩
    · rcases hfrom r hr with hr | ⟨hr, hflag⟩
      · rcases (hmem r).mp hr with hr | rfl
        · exact .inl hr
        · exact .inr ⟨List.mem_cons_self, rfl⟩
      · exact .inr ⟨List.mem_cons_of_mem _ hr, hflag⟩
    · rcases List.mem_cons.mp he' with rfl | he'
      · exact ⟨_, hmine, rfl, rfl, rfl⟩
      · exact hnew e' he'

end add

/-! ### Lookup -/

section lookup
variable [DecidableEq κ]

/-- The value of the row with a key and a flag, if there is one. -/
def get? (t : FlaggedTable κ ν) (key : κ) (flag : Bool) : Option ν :=
  (t.rows.find? fun r => r.key = key ∧ r.flag = flag).map FlaggedRow.value

theorem get?_eq_some_iff {key : κ} {b : Bool} {v : ν} :
    t.get? key b = some v ↔ ∃ r ∈ t.rows, r.key = key ∧ r.flag = b ∧ r.value = v := by
  rw [get?, Option.map_eq_some_iff]
  constructor
  · rintro ⟨r, hfind, hv⟩
    have hrow := List.find?_some hfind
    rw [decide_eq_true_eq] at hrow
    exact ⟨r, List.mem_of_find?_eq_some hfind, hrow.1, hrow.2, hv⟩
  · rintro ⟨r, hr, hkey, hflag, hv⟩
    cases hfind : t.rows.find? fun r => r.key = key ∧ r.flag = b with
    | none =>
      have := List.find?_eq_none.mp hfind r hr
      simp [hkey, hflag] at this
    | some r' =>
      have hrow := List.find?_some hfind
      rw [decide_eq_true_eq] at hrow
      have heq := t.eq_of_key (List.mem_of_find?_eq_some hfind) hr (hrow.1.trans hkey.symm) (hrow.2.trans hflag.symm)
      exact ⟨r', rfl, heq ▸ hv⟩

theorem get?_eq_none_iff {key : κ} {b : Bool} :
    t.get? key b = none ↔ ∀ r ∈ t.rows, r.key = key → r.flag ≠ b := by
  rw [Option.eq_none_iff_forall_ne_some]
  simp only [ne_eq, get?_eq_some_iff]
  constructor
  · exact fun h r hr hkey hflag => h r.value ⟨r, hr, hkey, hflag, rfl⟩
  · rintro h v ⟨r, hr, hkey, hflag, -⟩
    exact h r hr hkey hflag

end lookup

/-! ### Deleting the rows with a flag -/

/-- Remove all rows with a flag. -/
def deleteFlagged (t : FlaggedTable κ ν) : FlaggedTable κ ν where
  rows := t.rows.filter fun r => ! r.flag
  lastId := t.lastId
  ids_nodup := t.ids_nodup.sublist (List.filter_sublist.map _)
  ids_le := fun r hr => t.ids_le r (List.mem_of_mem_filter hr)
  unique := t.unique.sublist (List.filter_sublist.map _)

theorem mem_deleteFlagged : r ∈ t.deleteFlagged.rows ↔ r ∈ t.rows ∧ r.flag = false := by
  simp [deleteFlagged]

theorem get?_deleteFlagged [DecidableEq κ] (t : FlaggedTable κ ν) (key : κ) :
    t.deleteFlagged.get? key false = t.get? key false ∧ t.deleteFlagged.get? key true = none := by
  constructor
  · ext v
    simp only [get?_eq_some_iff, mem_deleteFlagged]
    constructor
    · rintro ⟨r, ⟨hr, -⟩, hrow⟩
      exact ⟨r, hr, hrow⟩
    · rintro ⟨r, hr, hkey, hflag, hv⟩
      exact ⟨r, ⟨hr, hflag⟩, hkey, hflag, hv⟩
  · refine get?_eq_none_iff.mpr fun r hr _ hflag => ?_
    rw [(mem_deleteFlagged.mp hr).2] at hflag
    cases hflag

/-! ### Pending changes -/

/-- The rows there will be once the rows with some ids are flagged and those with others are deleted. -/
def After (t : FlaggedTable κ ν) (flagged deleted : List ℕ) (r : FlaggedRow κ ν) : Prop :=
  r.id ∉ deleted ∧
    (r ∈ t.rows ∧ r.id ∉ flagged ∨ ∃ r₀ ∈ t.rows, r₀.id ∈ flagged ∧ r = { r₀ with flag := true })

/-- Remove the rows without flag and with a key in a set: some are deleted, the others get the flag. -/
def Removal (rows : FlaggedRow κ ν → Prop) (removed deletes : κ → Prop) (r : FlaggedRow κ ν) : Prop :=
  rows r ∧ ¬ (r.flag = false ∧ removed r.key) ∨
    ∃ r₀, rows r₀ ∧ r₀.flag = false ∧ removed r₀.key ∧ ¬ deletes r₀.key ∧ r = { r₀ with flag := true }

section pending
variable {flagged deleted flagged' deleted' : List ℕ}

@[simp] theorem after_nil : t.After [] [] r ↔ r ∈ t.rows := by
  simp [After]

theorem mem_flagAll_deleteAll [DecidableEq κ] (h : t.flagAll flagged = some t') :
    r ∈ (t'.deleteAll deleted).rows ↔ t.After flagged deleted r := by
  rw [mem_deleteAll, mem_flagAll h, After, and_comm]

theorem after_deleteAll [DecidableEq κ] (h : t.flagAll flagged = some t') :
    (t'.deleteAll deleted).After [] deleted r ↔ t.After flagged deleted r := by
  rw [After, mem_flagAll_deleteAll h]
  simp only [List.not_mem_nil, not_false_eq_true, and_true, false_and, and_false, exists_false, or_false]
  exact ⟨And.right, fun hr => ⟨hr.1, hr⟩⟩

theorem After.eq_of_id {r' : FlaggedRow κ ν} (h : t.After flagged deleted r) (h' : t.After flagged deleted r')
    (hid : r.id = r'.id) : r = r' := by
  obtain ⟨-, ⟨hr, hnot⟩ | ⟨r₀, hr₀, hmem, rfl⟩⟩ := h
  · obtain ⟨-, ⟨hr', -⟩ | ⟨r₁, hr₁, hmem', rfl⟩⟩ := h'
    · exact t.eq_of_id hr hr' hid
    · exact absurd (hid ▸ hmem') hnot
  · obtain ⟨-, ⟨hr', hnot'⟩ | ⟨r₁, hr₁, hmem', rfl⟩⟩ := h'
    · exact absurd (hid ▸ hmem) hnot'
    · rw [t.eq_of_id hr₀ hr₁ hid]

theorem after_iff_of_not_flag (hflag : r.flag = false) :
    t.After flagged deleted r ↔ r ∈ t.rows ∧ r.id ∉ flagged ∧ r.id ∉ deleted := by
  constructor
  · rintro ⟨hdel, ⟨hr, hnot⟩ | ⟨r₀, -, -, rfl⟩⟩
    · exact ⟨hr, hnot, hdel⟩
    · cases hflag
  · rintro ⟨hr, hnot, hdel⟩
    exact ⟨hdel, .inl ⟨hr, hnot⟩⟩

/-- Noting more rows without flag, to be deleted or flagged, removes them from the pending ones. -/
theorem after_removal {removed deletes : κ → Prop}
    (hflagged : ∀ i, i ∈ flagged' ↔ i ∈ flagged ∨ ∃ r, t.After flagged deleted r ∧ r.flag = false ∧
      removed r.key ∧ ¬ deletes r.key ∧ r.id = i)
    (hdeleted : ∀ i, i ∈ deleted' ↔ i ∈ deleted ∨ ∃ r, t.After flagged deleted r ∧ r.flag = false ∧
      removed r.key ∧ deletes r.key ∧ r.id = i) :
    t.After flagged' deleted' r ↔ Removal (t.After flagged deleted) removed deletes r := by
  have hid : ∀ {r r' : FlaggedRow κ ν}, t.After flagged deleted r → r'.flag = false →
      t.After flagged deleted r' → r'.id = r.id → r' = r := fun h _ h' heq => After.eq_of_id h' h heq
  constructor
  · rintro ⟨hdel, hrow⟩
    rw [hdeleted, not_or] at hdel
    rcases hrow with ⟨hr, hnot⟩ | ⟨r₀, hr₀, hmem, rfl⟩
    · rw [hflagged, not_or] at hnot
      refine .inl ⟨⟨hdel.1, .inl ⟨hr, hnot.1⟩⟩, fun ⟨hflag, hrem⟩ => ?_⟩
      have hafter := (after_iff_of_not_flag hflag).mpr ⟨hr, hnot.1, hdel.1⟩
      by_cases hdeletes : deletes r.key
      · exact hdel.2 ⟨r, hafter, hflag, hrem, hdeletes, rfl⟩
      · exact hnot.2 ⟨r, hafter, hflag, hrem, hdeletes, rfl⟩
    · rcases (hflagged _).mp hmem with hold | ⟨r₁, hafter, hflag, hrem, hdeletes, heq⟩
      · exact .inl ⟨⟨hdel.1, .inr ⟨r₀, hr₀, hold, rfl⟩⟩, fun hr => Bool.noConfusion hr.1⟩
      · obtain rfl := t.eq_of_id ((after_iff_of_not_flag hflag).mp hafter).1 hr₀ heq
        exact .inr ⟨r₁, hafter, hflag, hrem, hdeletes, rfl⟩
  · rintro (⟨hafter, hkept⟩ | ⟨r₀, hafter, hflag, hrem, hdeletes, rfl⟩)
    · have hother : ∀ r', t.After flagged deleted r' → r'.flag = false → removed r'.key → r'.id ≠ r.id := by
        intro r' hafter' hflag' hrem' heq
        obtain rfl := hid hafter hflag' hafter' heq
        exact hkept ⟨hflag', hrem'⟩
      obtain ⟨hdel, hrow⟩ := hafter
      refine ⟨fun hmem => ?_, hrow.imp (fun ⟨hr, hnot⟩ => ⟨hr, fun hmem => ?_⟩) fun ⟨r₀, hr₀, hmem, heq⟩ =>
        ⟨r₀, hr₀, (hflagged _).mpr (.inl hmem), heq⟩⟩
      · rcases (hdeleted _).mp hmem with hold | ⟨r', hafter', hflag', hrem', -, heq⟩
        · exact hdel hold
        · exact hother r' hafter' hflag' hrem' heq
      · rcases (hflagged _).mp hmem with hold | ⟨r', hafter', hflag', hrem', -, heq⟩
        · exact hnot hold
        · exact hother r' hafter' hflag' hrem' heq
    · obtain ⟨hr₀, -, hdel⟩ := (after_iff_of_not_flag hflag).mp hafter
      refine ⟨fun hmem => ?_, .inr ⟨r₀, hr₀, (hflagged _).mpr (.inr ⟨r₀, hafter, hflag, hrem, hdeletes, rfl⟩), rfl⟩⟩
      rcases (hdeleted _).mp hmem with hold | ⟨r', hafter', hflag', -, hdeletes', heq⟩
      · exact hdel hold
      · obtain rfl := hid hafter hflag' hafter' heq
        exact hdeletes hdeletes'

end pending

section removal
variable {rows : FlaggedRow κ ν → Prop} {removed removed' deletes : κ → Prop}

theorem Removal.congr {rows' : FlaggedRow κ ν → Prop} (h : ∀ r, rows r ↔ rows' r) :
    Removal rows removed deletes r ↔ Removal rows' removed deletes r := by
  simp only [Removal, h]

theorem removal_iff_of_not_flag (hflag : r.flag = false) :
    Removal rows removed deletes r ↔ rows r ∧ ¬ removed r.key := by
  constructor
  · rintro (⟨hr, hkept⟩ | ⟨r₀, -, -, -, -, rfl⟩)
    · exact ⟨hr, fun hrem => hkept ⟨hflag, hrem⟩⟩
    · cases hflag
  · rintro ⟨hr, hkept⟩
    exact .inl ⟨hr, fun hrem => hkept hrem.2⟩

theorem removal_of_forall (h : ∀ r, rows r → r.flag = false → ¬ removed r.key) :
    Removal rows removed deletes r ↔ rows r := by
  constructor
  · rintro (⟨hr, -⟩ | ⟨r₀, hr₀, hflag, hrem, -, -⟩)
    · exact hr
    · exact absurd hrem (h r₀ hr₀ hflag)
  · exact fun hr => .inl ⟨hr, fun hrow => h r hr hrow.1 hrow.2⟩

theorem removal_removal :
    Removal (Removal rows removed deletes) removed' deletes r ↔
      Removal rows (fun k => removed k ∨ removed' k) deletes r := by
  constructor
  · rintro (⟨hr, hkept⟩ | ⟨r₀, hr₀, hflag, hrem, hdel, rfl⟩)
    · rcases hr with ⟨hr, hkept'⟩ | ⟨r₀, hr₀, hflag, hrem, hdel, rfl⟩
      · refine .inl ⟨hr, fun ⟨hflag, hrem⟩ => ?_⟩
        rcases hrem with hrem | hrem
        · exact hkept' ⟨hflag, hrem⟩
        · exact hkept ⟨hflag, hrem⟩
      · exact .inr ⟨r₀, hr₀, hflag, .inl hrem, hdel, rfl⟩
    · rcases hr₀ with ⟨hr, -⟩ | ⟨r₁, -, -, -, -, rfl⟩
      · exact .inr ⟨r₀, hr, hflag, .inr hrem, hdel, rfl⟩
      · cases hflag
  · rintro (⟨hr, hkept⟩ | ⟨r₀, hr₀, hflag, hrem, hdel, rfl⟩)
    · exact .inl ⟨.inl ⟨hr, fun h => hkept ⟨h.1, .inl h.2⟩⟩, fun h => hkept ⟨h.1, .inr h.2⟩⟩
    · by_cases hfirst : removed r₀.key
      · exact .inl ⟨.inr ⟨r₀, hr₀, hflag, hfirst, hdel, rfl⟩, fun h => Bool.noConfusion h.1⟩
      · exact .inr ⟨r₀, .inl ⟨hr₀, fun h => hfirst h.2⟩, hflag, hrem.resolve_left hfirst, hdel, rfl⟩

/-- What a removal leaves, key by key. -/
theorem get?_removal [DecidableEq κ] [DecidablePred removed] [DecidablePred deletes]
    (h : ∀ r, r ∈ t'.rows ↔ Removal (· ∈ t.rows) removed deletes r) (key : κ) :
    t'.get? key false = (if removed key then none else t.get? key false) ∧
      t'.get? key true =
        if removed key ∧ ¬ deletes key then (t.get? key false).or (t.get? key true) else t.get? key true := by
  constructor
  · ext v
    rw [get?_eq_some_iff]
    constructor
    · rintro ⟨r, hr, rfl, hflag, rfl⟩
      rcases (h r).mp hr with ⟨hr, hkept⟩ | ⟨r₀, -, -, -, -, rfl⟩
      · rw [if_neg fun hrem => hkept ⟨hflag, hrem⟩, get?_eq_some_iff]
        exact ⟨r, hr, rfl, hflag, rfl⟩
      · cases hflag
    · intro hv
      split_ifs at hv with hrem
      obtain ⟨r, hr, rfl, hflag, rfl⟩ := get?_eq_some_iff.mp hv
      exact ⟨r, (h r).mpr (.inl ⟨hr, fun hr => hrem hr.2⟩), rfl, hflag, rfl⟩
  · have hold : ∀ r ∈ t.rows, r.flag = true → r ∈ t'.rows := fun r hr hflag =>
      (h r).mpr (.inl ⟨hr, fun h => Bool.noConfusion (h.1.symm.trans hflag)⟩)
    ext v
    rw [get?_eq_some_iff]
    constructor
    · rintro ⟨r, hr, rfl, hflag, rfl⟩
      rcases (h r).mp hr with ⟨hr', hkept⟩ | ⟨r₀, hr₀, hflag₀, hrem, hdel, rfl⟩
      · have hget : t.get? r.key true = some r.value := get?_eq_some_iff.mpr ⟨r, hr', rfl, hflag, rfl⟩
        split_ifs with hcond
        · -- the flagged row and the one that would be flagged have the same key
          cases hactive : t.get? r.key false with
          | none => rw [Option.none_or, hget]
          | some w =>
            obtain ⟨r₀, hr₀, hkey, hflag₀, rfl⟩ := get?_eq_some_iff.mp hactive
            have hflagged : { r₀ with flag := true } ∈ t'.rows :=
              (h _).mpr (.inr ⟨r₀, hr₀, hflag₀, hkey ▸ hcond.1, hkey ▸ hcond.2, rfl⟩)
            have heq := t'.eq_of_key hflagged hr hkey hflag.symm
            rw [Option.some_or, ← heq]
        · exact hget
      · have hget : t.get? r₀.key false = some r₀.value := get?_eq_some_iff.mpr ⟨r₀, hr₀, rfl, hflag₀, rfl⟩
        rw [if_pos ⟨hrem, hdel⟩, hget, Option.some_or]
    · intro hv
      split_ifs at hv with hcond
      · cases hactive : t.get? key false with
        | none =>
          rw [hactive, Option.none_or] at hv
          obtain ⟨r, hr, hkey, hflag, hval⟩ := get?_eq_some_iff.mp hv
          exact ⟨r, hold r hr hflag, hkey, hflag, hval⟩
        | some w =>
          rw [hactive, Option.some_or] at hv
          cases hv
          obtain ⟨r₀, hr₀, rfl, hflag₀, rfl⟩ := get?_eq_some_iff.mp hactive
          exact ⟨_, (h _).mpr (.inr ⟨r₀, hr₀, hflag₀, hcond.1, hcond.2, rfl⟩), rfl, rfl, rfl⟩
      · obtain ⟨r, hr, hkey, hflag, hval⟩ := get?_eq_some_iff.mp hv
        exact ⟨r, hold r hr hflag, hkey, hflag, hval⟩

end removal

/-! ### Growth -/

section growth
variable [DecidableEq κ] {t'' : FlaggedTable κ ν} {source : ℕ → ν} {added added' : κ → Prop}

/-- A table got rows for a set of keys: those that had none without flag got one with a new value. -/
structure Grows (source : ℕ → ν) (added : κ → Prop) (t t' : FlaggedTable κ ν) : Prop where
  flagged : ∀ k, t'.get? k true = t.get? k true
  kept : ∀ k v, t.get? k false = some v → t'.get? k false = some v
  other : ∀ k, ¬ added k → t'.get? k false = t.get? k false
  new : ∀ k, added k → t.get? k false = none → ∃ i, t.lastId < i ∧ t'.get? k false = some (source i)
  lastId : t.lastId ≤ t'.lastId

theorem Grows.refl (source : ℕ → ν) (t : FlaggedTable κ ν) : Grows source (fun _ => False) t t :=
  ⟨fun _ => rfl, fun _ _ h => h, fun _ _ => rfl, fun _ h => h.elim, Nat.le_refl _⟩

theorem Grows.ne_none (h : Grows source added t t') {k : κ} (hk : t.get? k false ≠ none ∨ added k) :
    t'.get? k false ≠ none := by
  by_cases hnone : t.get? k false = none
  · obtain ⟨i, -, hnew⟩ := h.new k (hk.resolve_left (not_not.mpr hnone)) hnone
    rw [hnew]
    nofun
  · obtain ⟨v, hv⟩ := Option.ne_none_iff_exists'.mp hnone
    rw [h.kept k v hv]
    nofun

theorem Grows.trans (h : Grows source added t t') (h' : Grows source added' t' t'') :
    Grows source (fun k => added k ∨ added' k) t t'' where
  flagged k := (h'.flagged k).trans (h.flagged k)
  kept k v hv := h'.kept k v (h.kept k v hv)
  other k hk := (h'.other k fun hk' => hk (.inr hk')).trans (h.other k fun hk' => hk (.inl hk'))
  new k hk hnone := by
    by_cases hfirst : added k
    · obtain ⟨i, hi, hget⟩ := h.new k hfirst hnone
      exact ⟨i, hi, h'.kept k _ hget⟩
    · obtain ⟨i, hi, hget⟩ := h'.new k (hk.resolve_left hfirst) ((h.other k hfirst).trans hnone)
      exact ⟨i, Nat.lt_of_le_of_lt h.lastId hi, hget⟩
  lastId := Nat.le_trans h.lastId h'.lastId

theorem Grows.congr (h : Grows source added t t') (hiff : ∀ k, added k ↔ added' k) : Grows source added' t t' := by
  obtain rfl : added = added' := funext fun k => propext (hiff k)
  exact h

theorem Grows.of_get? {key : κ} {v : ν} (source : ℕ → ν) (h : t.get? key false = some v) : Grows source (· = key) t t where
  flagged _ := rfl
  kept _ _ h := h
  other _ _ := rfl
  new k hk hnone := by
    rw [hk, h] at hnone
    cases hnone
  lastId := Nat.le_refl _

theorem exists_insert_grows {key : κ} (source : ℕ → ν) (h : t.get? key false = none) :
    ∃ t', t.insert key (source (t.lastId + 1)) = some t' ∧ Grows source (· = key) t t' ∧
      t'.rows = t.rows ++ [⟨t.lastId + 1, key, source (t.lastId + 1), false⟩] := by
  have hfresh : ∀ r ∈ t.rows, r.key = key → r.flag = true := fun r hr hkey => by
    simpa using get?_eq_none_iff.mp h r hr hkey
  obtain ⟨t', hinsert, hrows, hlast⟩ := insert_eq_some (source (t.lastId + 1)) hfresh
  have hget : ∀ k b v, t'.get? k b = some v ↔
      t.get? k b = some v ∨ k = key ∧ b = false ∧ v = source (t.lastId + 1) := by
    intro k b v
    rw [get?_eq_some_iff, get?_eq_some_iff, hrows]
    simp only [List.mem_append, List.mem_singleton]
    constructor
    · rintro ⟨r, hr | rfl, rfl, rfl, rfl⟩
      · exact .inl ⟨r, hr, rfl, rfl, rfl⟩
      · exact .inr ⟨rfl, rfl, rfl⟩
    · rintro (⟨r, hr, hrow⟩ | ⟨rfl, rfl, rfl⟩)
      · exact ⟨r, .inl hr, hrow⟩
      · exact ⟨_, .inr rfl, rfl, rfl, rfl⟩
  refine ⟨t', hinsert, ⟨fun k => ?_, fun k v hv => ?_, fun k hk => ?_, ?_, by omega⟩, hrows⟩
  · ext v
    simp [hget]
  · exact (hget k false v).mpr (.inl hv)
  · ext v
    simp [hget, hk]
  · rintro k rfl -
    exact ⟨t.lastId + 1, Nat.lt_succ_self _, (hget k false _).mpr (.inr ⟨rfl, rfl, rfl⟩)⟩

/-! ### Renewal -/

/-- A table whose keys in a set were renewed: the value that such a key had first is on its flagged row, and a
later one on the row without flag. The other keys have the value they had, and no flagged row. -/
structure Renewed (source : ℕ → ν) (t₀ : FlaggedTable κ ν) (renewed : κ → Prop) (t : FlaggedTable κ ν) : Prop where
  old : ∀ k, renewed k → t.get? k true = t₀.get? k false
  new : ∀ k, renewed k → ∃ i, t₀.lastId < i ∧ t.get? k false = some (source i)
  active : ∀ k, ¬ renewed k → t.get? k false = t₀.get? k false
  unflagged : ∀ k, ¬ renewed k → t.get? k true = none
  lastId : t₀.lastId ≤ t.lastId

variable {t₀ : FlaggedTable κ ν} {renewed removed : κ → Prop} {deletes : κ → Bool}

theorem Renewed.refl (source : ℕ → ν) (h : ∀ k, t₀.get? k true = none) : Renewed source t₀ (fun _ => False) t₀ :=
  ⟨fun _ h => h.elim, fun _ h => h.elim, fun _ _ => rfl, fun k _ => h k, Nat.le_refl _⟩

theorem Renewed.congr (h : Renewed source t₀ renewed t) (hiff : ∀ k, renewed k ↔ removed k) :
    Renewed source t₀ removed t := by
  obtain rfl : renewed = removed := funext fun k => propext (hiff k)
  exact h

theorem Renewed.get?_or (h : Renewed source t₀ renewed t) {k : κ} (hkey : renewed k → t₀.get? k false ≠ none) :
    (t.get? k true).or (t.get? k false) = t₀.get? k false := by
  by_cases hk : renewed k
  · obtain ⟨v, hv⟩ := Option.ne_none_iff_exists'.mp (hkey hk)
    rw [h.old k hk, hv, Option.some_or]
  · rw [h.unflagged k hk, h.active k hk, Option.none_or]

variable (deletes) in
/-- Removing keys and adding them again renews them, when those that were renewed before are deleted. -/
theorem Renewed.step (h : Renewed source t₀ renewed t)
    (hrows : ∀ r, r ∈ t'.rows ↔ Removal (· ∈ t.rows) removed (fun k => deletes k) r) (hlast : t'.lastId = t.lastId)
    (hgrows : Grows source added t' t'') (hadded : ∀ k, added k → t₀.get? k false ≠ none)
    (hother : ∀ k, ¬ added k → t.get? k false = none)
    (hdeletes : ∀ k, removed k → added k → (deletes k = true ↔ renewed k)) :
    Renewed source t₀ (fun k => renewed k ∨ removed k ∧ added k) t'' := by
  classical
  have hget := fun k => get?_removal hrows k
  have hflag : ∀ k, t''.get? k true = t'.get? k true := hgrows.flagged
  -- a key that is not added again was not removed
  have hkept : ∀ k, ¬ added k → t'.get? k false = t.get? k false ∧ t'.get? k true = t.get? k true := by
    intro k hk
    obtain ⟨hactive, hflagged⟩ := hget k
    rw [hactive, hflagged, hother k hk, Option.none_or, ite_self, ite_self]
    exact ⟨rfl, rfl⟩
  refine ⟨fun k hk => ?_, fun k hk => ?_, fun k hk => ?_, fun k hk => ?_, ?_⟩
  · rw [hflag, (hget k).2]
    by_cases hrem : removed k ∧ ¬ deletes k = true
    · rw [if_pos hrem]
      by_cases hadd : added k
      · have hfirst : ¬ renewed k := fun hren => hrem.2 ((hdeletes k hrem.1 hadd).mpr hren)
        rw [h.active k hfirst, h.unflagged k hfirst, Option.or_none]
      · rw [hother k hadd, Option.none_or]
        exact h.old k (hk.resolve_right fun hk => hadd hk.2)
    · rw [if_neg hrem]
      refine h.old k (hk.elim id fun ⟨hrem', hadd⟩ => (hdeletes k hrem' hadd).mp ?_)
      by_contra hdel
      exact hrem ⟨hrem', hdel⟩
  · by_cases hrem : removed k ∧ added k
    · obtain ⟨i, hi, hnew⟩ := hgrows.new k hrem.2 (by rw [(hget k).1, if_pos hrem.1])
      rw [hlast] at hi
      exact ⟨i, Nat.lt_of_le_of_lt h.lastId hi, hnew⟩
    · obtain ⟨i, hi, hold⟩ := h.new k (hk.resolve_right hrem)
      refine ⟨i, hi, hgrows.kept k _ ?_⟩
      by_cases hadd : added k
      · rw [(hget k).1, if_neg fun hrem' => hrem ⟨hrem', hadd⟩, hold]
      · rw [(hkept k hadd).1, hold]
  · rw [not_or] at hk
    by_cases hadd : added k
    · obtain ⟨v, hv⟩ := Option.ne_none_iff_exists'.mp (hadded k hadd)
      rw [hv]
      refine hgrows.kept k v ?_
      rw [(hget k).1, if_neg fun hrem => hk.2 ⟨hrem, hadd⟩, h.active k hk.1, hv]
    · rw [hgrows.other k hadd, (hkept k hadd).1, h.active k hk.1]
  · rw [not_or] at hk
    rw [hflag, (hget k).2]
    by_cases hadd : added k
    · rw [if_neg fun hrem => hk.2 ⟨hrem.1, hadd⟩, h.unflagged k hk.1]
    · rw [hother k hadd, Option.none_or, ite_self, h.unflagged k hk.1]
  · calc
      t₀.lastId ≤ t.lastId := h.lastId
      _ = t'.lastId := hlast.symm
      _ ≤ t''.lastId := hgrows.lastId

end growth

end FlaggedTable
