import Mathlib.Data.List.Induction
import Mathlib.Data.List.Nodup
import Mathlib.Tactic.SplitIfs

/-!
# Insertion-ordered dictionaries

`Dict κ α` is a finite map that remembers the order in which its keys were first written: `set`
overwrites the value of a key in place and appends an unknown key, `erase` removes a key, and
iteration (`entries`, `keys`, `values`) follows the remembered order. The key list carries its own
duplicate-freeness, so a lookup and an entry are the same thing (`get?_eq_some_iff`).
-/

/-- A finite map in insertion order. -/
structure Dict (κ α : Type*) where
  entries : List (κ × α)
  nodup : (entries.map Prod.fst).Nodup

namespace Dict

variable {κ α β : Type*}

/-- The keys in insertion order. -/
def keys (d : Dict κ α) : List κ := d.entries.map Prod.fst

/-- The values in insertion order. -/
def values (d : Dict κ α) : List α := d.entries.map Prod.snd

def size (d : Dict κ α) : ℕ := d.entries.length

/-- The dictionary without keys. -/
def empty : Dict κ α := ⟨[], List.nodup_nil⟩

instance : EmptyCollection (Dict κ α) := ⟨empty⟩

instance [DecidableEq κ] [DecidableEq α] : DecidableEq (Dict κ α) := fun d e =>
  decidable_of_iff (d.entries = e.entries) (by cases d; cases e; simp)

@[simp] theorem entries_empty : (∅ : Dict κ α).entries = [] := rfl

@[simp] theorem keys_empty : (∅ : Dict κ α).keys = [] := rfl

theorem keys_nodup (d : Dict κ α) : d.keys.Nodup := d.nodup

theorem ext_entries {d e : Dict κ α} (h : d.entries = e.entries) : d = e := by
  cases d; cases e; simpa using h

/-! ### Operations on the entry list -/

section lists
variable [DecidableEq κ]

def lookupEntry (k : κ) : List (κ × α) → Option α
  | [] => none
  | (k', v) :: rest => if k' = k then some v else lookupEntry k rest

def setEntry (k : κ) (v : α) : List (κ × α) → List (κ × α)
  | [] => [(k, v)]
  | (k', v') :: rest => if k' = k then (k, v) :: rest else (k', v') :: setEntry k v rest

theorem lookupEntry_eq_none {k : κ} {l : List (κ × α)} :
    lookupEntry k l = none ↔ k ∉ l.map Prod.fst := by
  induction l with
  | nil => simp [lookupEntry]
  | cons e rest ih =>
    by_cases h : e.1 = k
    · simp [lookupEntry, h]
    · simp [lookupEntry, h, ih, Ne.symm h]

theorem lookupEntry_eq_some {k : κ} {v : α} {l : List (κ × α)} (hl : (l.map Prod.fst).Nodup) :
    lookupEntry k l = some v ↔ (k, v) ∈ l := by
  induction l with
  | nil => simp [lookupEntry]
  | cons e rest ih =>
    obtain ⟨k', v'⟩ := e
    simp only [List.map_cons, List.nodup_cons] at hl
    by_cases h : k' = k
    · subst h
      have hfresh : (k', v) ∉ rest := fun hmem => hl.1 (List.mem_map_of_mem (f := Prod.fst) hmem)
      simp only [lookupEntry, if_true, Option.some.injEq, List.mem_cons, Prod.mk.injEq, true_and, hfresh,
        or_false]
      exact eq_comm
    · simp only [lookupEntry, h, if_false, ih hl.2, List.mem_cons, Prod.mk.injEq, Ne.symm h, false_and,
        false_or]

theorem setEntry_of_not_mem {k : κ} {v : α} {l : List (κ × α)} (h : k ∉ l.map Prod.fst) :
    setEntry k v l = l ++ [(k, v)] := by
  induction l with
  | nil => rfl
  | cons e rest ih =>
    simp only [List.map_cons, List.mem_cons, not_or] at h
    simp [setEntry, Ne.symm h.1, ih h.2]

theorem map_fst_setEntry_of_mem {k : κ} {v : α} {l : List (κ × α)} (h : k ∈ l.map Prod.fst) :
    (setEntry k v l).map Prod.fst = l.map Prod.fst := by
  induction l with
  | nil => simp at h
  | cons e rest ih =>
    by_cases he : e.1 = k
    · simp [setEntry, he]
    · simp only [List.map_cons, List.mem_cons] at h
      simp [setEntry, he, ih (h.resolve_left (Ne.symm he))]

theorem nodup_setEntry {k : κ} {v : α} {l : List (κ × α)} (hl : (l.map Prod.fst).Nodup) :
    ((setEntry k v l).map Prod.fst).Nodup := by
  by_cases h : k ∈ l.map Prod.fst
  · rwa [map_fst_setEntry_of_mem h]
  · rw [setEntry_of_not_mem h, List.map_append]
    exact List.Nodup.append hl (List.nodup_singleton _) (by simpa using h)

theorem lookupEntry_setEntry (k k' : κ) (v : α) (l : List (κ × α)) :
    lookupEntry k' (setEntry k v l) = if k = k' then some v else lookupEntry k' l := by
  induction l with
  | nil => simp [setEntry, lookupEntry]
  | cons e rest ih =>
    by_cases he : e.1 = k
    · by_cases hk : k = k'
      · simp [setEntry, lookupEntry, he, hk]
      · simp [setEntry, lookupEntry, he, hk]
    · by_cases hk : k = k'
      · subst hk
        simp [setEntry, lookupEntry, he, ih]
      · simp [setEntry, lookupEntry, he, ih, hk]

theorem filter_key_eq {k : κ} {l : List (κ × α)} (hl : (l.map Prod.fst).Nodup) :
    l.filter (fun e => e.1 = k) = (lookupEntry k l).toList.map fun v => (k, v) := by
  induction l with
  | nil => rfl
  | cons e rest ih =>
    rw [List.map_cons, List.nodup_cons] at hl
    rw [lookupEntry, List.filter_cons]
    by_cases hk : e.1 = k
    · have hrest : lookupEntry k rest = none := lookupEntry_eq_none.mpr (hk ▸ hl.1)
      rw [if_pos (decide_eq_true hk), if_pos hk, ih hl.2, hrest, ← hk]
      rfl
    · rw [if_neg (by simpa using hk), if_neg hk, ih hl.2]

theorem lookupEntry_filter (p : κ → Bool) (k : κ) (l : List (κ × α)) :
    lookupEntry k (l.filter fun e => p e.1) = if p k then lookupEntry k l else none := by
  induction l with
  | nil => simp [lookupEntry]
  | cons e rest ih =>
    by_cases hk : e.1 = k
    · subst hk
      by_cases hp : p e.1
      · simp [lookupEntry, hp]
      · simp [hp, ih]
    · by_cases hp : p e.1 <;> simp [lookupEntry, hp, hk, ih]

end lists

/-! ### Operations on dictionaries -/

section ops
variable [DecidableEq κ]

/-- The value of a key, if it has one. -/
def get? (d : Dict κ α) (k : κ) : Option α := lookupEntry k d.entries

/-- Write a key: in place if it is known, at the end otherwise. -/
def set (d : Dict κ α) (k : κ) (v : α) : Dict κ α := ⟨setEntry k v d.entries, nodup_setEntry d.nodup⟩

/-- Keep the keys that satisfy a test. -/
def filterKeys (d : Dict κ α) (p : κ → Bool) : Dict κ α :=
  ⟨d.entries.filter fun e => p e.1, d.nodup.sublist (List.filter_sublist.map Prod.fst)⟩

/-- Remove a key. -/
def erase (d : Dict κ α) (k : κ) : Dict κ α := d.filterKeys fun k' => k' ≠ k

/-- Apply a function to the values. -/
def map (d : Dict κ α) (f : α → β) : Dict κ β :=
  ⟨d.entries.map fun e => (e.1, f e.2), by simpa [Function.comp_def] using d.nodup⟩

/-- The values changed with their keys. -/
def mapEntries (d : Dict κ α) (f : κ → α → β) : Dict κ β :=
  ⟨d.entries.map fun e => (e.1, f e.1 e.2), by simpa [Function.comp_def] using d.nodup⟩

@[simp] theorem get?_empty (k : κ) : (∅ : Dict κ α).get? k = none := rfl

theorem get?_eq_some_iff {d : Dict κ α} {k : κ} {v : α} : d.get? k = some v ↔ (k, v) ∈ d.entries :=
  lookupEntry_eq_some d.nodup

theorem get?_eq_none_iff {d : Dict κ α} {k : κ} : d.get? k = none ↔ k ∉ d.keys :=
  lookupEntry_eq_none

theorem mem_keys_iff {d : Dict κ α} {k : κ} : k ∈ d.keys ↔ ∃ v, d.get? k = some v := by
  rw [← Option.isSome_iff_exists, ← Option.ne_none_iff_isSome, ne_eq, get?_eq_none_iff, not_not]

theorem filter_entries (d : Dict κ α) (k : κ) :
    d.entries.filter (fun e => e.1 = k) = (d.get? k).toList.map fun v => (k, v) :=
  filter_key_eq d.nodup

theorem get?_set (d : Dict κ α) (k k' : κ) (v : α) :
    (d.set k v).get? k' = if k = k' then some v else d.get? k' :=
  lookupEntry_setEntry k k' v d.entries

@[simp] theorem get?_set_self (d : Dict κ α) (k : κ) (v : α) : (d.set k v).get? k = some v := by
  simp [get?_set]

theorem get?_set_ne (d : Dict κ α) {k k' : κ} (v : α) (h : k ≠ k') :
    (d.set k v).get? k' = d.get? k' := by
  simp [get?_set, h]

theorem get?_filterKeys (d : Dict κ α) (p : κ → Bool) (k : κ) :
    (d.filterKeys p).get? k = if p k then d.get? k else none :=
  lookupEntry_filter p k d.entries

theorem get?_map (d : Dict κ α) (f : α → β) (k : κ) : (d.map f).get? k = (d.get? k).map f := by
  cases d with
  | mk entries nodup =>
    simp only [get?, map]
    clear nodup
    induction entries with
    | nil => rfl
    | cons e rest ih =>
      by_cases h : e.1 = k
      · simp [lookupEntry, h]
      · simp [lookupEntry, h, ih]

theorem get?_mapEntries (d : Dict κ α) (f : κ → α → β) (k : κ) :
    (d.mapEntries f).get? k = (d.get? k).map (f k) := by
  ext v
  rw [get?_eq_some_iff, Option.map_eq_some_iff, mapEntries, List.mem_map]
  constructor
  · rintro ⟨⟨k', w⟩, hw, heq⟩
    obtain ⟨rfl, rfl⟩ := Prod.mk.inj heq
    exact ⟨w, get?_eq_some_iff.mpr hw, rfl⟩
  · rintro ⟨w, hw, rfl⟩
    exact ⟨(k, w), get?_eq_some_iff.mp hw, rfl⟩

theorem get?_erase (d : Dict κ α) (k k' : κ) :
    (d.erase k).get? k' = if k' = k then none else d.get? k' := by
  rw [erase, get?_filterKeys]
  by_cases h : k' = k <;> simp [h]

theorem entries_set_of_not_mem {d : Dict κ α} {k : κ} (v : α) (h : k ∉ d.keys) :
    (d.set k v).entries = d.entries ++ [(k, v)] :=
  setEntry_of_not_mem h

theorem mem_keys_set {d : Dict κ α} {k k' : κ} {v : α} :
    k' ∈ (d.set k v).keys ↔ k' = k ∨ k' ∈ d.keys := by
  by_cases h : k = k'
  · simp [mem_keys_iff, h]
  · simp [mem_keys_iff, get?_set, h, Ne.symm h]

/-! ### Dictionaries built entry by entry -/

/-- The entries of two dictionaries; the first one has precedence. -/
def union (d e : Dict κ α) : Dict κ α :=
  e.entries.foldl (fun d entry => if entry.1 ∈ d.keys then d else d.set entry.1 entry.2) d

theorem get?_union (d e : Dict κ α) (k : κ) : (d.union e).get? k = (d.get? k).or (e.get? k) := by
  unfold union get?
  generalize e.entries = l
  induction l generalizing d with
  | nil => simp [lookupEntry]
  | cons entry rest ih =>
    rw [List.foldl_cons]
    refine (ih _).trans ?_
    change ((ite _ d (d.set _ _)).get? k).or _ = (d.get? k).or _
    by_cases hmem : entry.1 ∈ d.keys
    · obtain ⟨v, hv⟩ := mem_keys_iff.mp hmem
      rw [if_pos hmem]
      by_cases hk : entry.1 = k
      · rw [← hk, hv, Option.some_or, Option.some_or]
      · rw [lookupEntry, if_neg hk]
    · rw [if_neg hmem, get?_set]
      by_cases hk : entry.1 = k
      · rw [if_pos hk, lookupEntry, if_pos hk, ← hk, get?_eq_none_iff.mpr hmem, Option.some_or, Option.none_or]
      · rw [if_neg hk, lookupEntry, if_neg hk]

theorem foldl_set (l : List (κ × α)) (d : Dict κ α) (h : ((d.entries ++ l).map Prod.fst).Nodup) :
    (l.foldl (fun d e => d.set e.1 e.2) d).entries = d.entries ++ l := by
  induction l generalizing d with
  | nil => simp
  | cons e rest ih =>
    have hfresh : e.1 ∉ d.keys := by
      rw [List.map_append, List.nodup_append] at h
      exact fun hmem => h.2.2 _ hmem _ (by simp) rfl
    have hset : (d.set e.1 e.2).entries = d.entries ++ [e] := entries_set_of_not_mem e.2 hfresh
    rw [List.foldl_cons, ih _ (by rwa [hset, List.append_assoc]), hset, List.append_assoc]
    rfl

theorem get?_foldl_update {ρ : Type*} (f : Option α → ρ → α) (g : ρ → κ) (l : List ρ) (d : Dict κ α) (k : κ) :
    (l.foldl (fun d a => d.set (g a) (f (d.get? (g a)) a)) d).get? k =
      (l.filter (g · = k)).foldl (fun o a => some (f o a)) (d.get? k) := by
  induction l generalizing d with
  | nil => rfl
  | cons a rest ih =>
    rw [List.foldl_cons, ih, get?_set]
    by_cases hk : g a = k
    · rw [if_pos hk, List.filter_cons_of_pos (by simpa using hk), List.foldl_cons, hk]
    · rw [if_neg hk, List.filter_cons_of_neg (by simpa using hk)]

/-- The values that are listed with each key. -/
def group (l : List (κ × α)) : Dict κ (List α) :=
  l.foldl (fun d e => d.set e.1 ((d.get? e.1).getD [] ++ [e.2])) ∅

theorem group_concat (l : List (κ × α)) (e : κ × α) :
    group (l ++ [e]) = (group l).set e.1 (((group l).get? e.1).getD [] ++ [e.2]) := by
  rw [group, List.foldl_append]
  rfl

theorem filter_of_get?_group {l : List (κ × α)} {k : κ} (h : (group l).get? k = none) : l.filter (·.1 = k) = [] := by
  induction l using List.reverseRecOn with
  | nil => rfl
  | append_singleton l e ih =>
    rw [group_concat, get?_set] at h
    by_cases hk : e.1 = k
    · rw [if_pos hk] at h
      cases h
    · rw [if_neg hk] at h
      rw [List.filter_append, ih h, List.filter_cons_of_neg (by simpa using hk)]
      rfl

theorem mem_group {l : List (κ × α)} {k : κ} {vs : List α} (h : (group l).get? k = some vs) :
    vs = (l.filter (·.1 = k)).map Prod.snd := by
  induction l using List.reverseRecOn generalizing vs with
  | nil => cases h
  | append_singleton l e ih =>
    rw [group_concat, get?_set] at h
    rw [List.filter_append, List.map_append]
    by_cases hk : e.1 = k
    · rw [if_pos hk, hk, Option.some.injEq] at h
      rw [List.filter_cons_of_pos (by simpa using hk), ← h]
      cases hget : (group l).get? k with
      | some vs' =>
        rw [← ih hget]
        rfl
      | none =>
        rw [filter_of_get?_group hget]
        rfl
    · rw [if_neg hk] at h
      rw [List.filter_cons_of_neg (by simpa using hk), ← ih h]
      exact (List.append_nil _).symm

theorem setEntry_map (f : α → β) (k : κ) (v : α) (l : List (κ × α)) :
    setEntry k (f v) (l.map (Prod.map id f)) = (setEntry k v l).map (Prod.map id f) := by
  induction l with
  | nil => rfl
  | cons e rest ih =>
    obtain ⟨k', w⟩ := e
    by_cases hk : k' = k
    · simp [setEntry, hk]
    · simp [setEntry, hk, ih]

theorem group_map (f : α → β) (l : List (κ × α)) : group (l.map (Prod.map id f)) = (group l).map (List.map f) := by
  induction l using List.reverseRecOn with
  | nil => rfl
  | append_singleton l e ih =>
    rw [List.map_append]
    show group (l.map (Prod.map id f) ++ [(e.1, f e.2)]) = _
    rw [group_concat, group_concat, ih, get?_map]
    apply ext_entries
    have hgroup : (((group l).get? e.1).map (List.map f)).getD [] ++ [f e.2] =
        (((group l).get? e.1).getD [] ++ [e.2]).map f := by
      cases (group l).get? e.1 with
      | none => rfl
      | some vs => simp
    rw [hgroup]
    exact setEntry_map (List.map f) e.1 _ (group l).entries

theorem flatMap_setEntry (k : κ) (a : α) (l : List (κ × List α)) :
    ((setEntry k ((lookupEntry k l).getD [] ++ [a]) l).flatMap Prod.snd).Perm (l.flatMap Prod.snd ++ [a]) := by
  induction l with
  | nil => exact .refl _
  | cons e rest ih =>
    obtain ⟨k', v⟩ := e
    by_cases hk : k' = k
    · rw [setEntry, lookupEntry, if_pos hk, if_pos hk]
      show (v ++ [a] ++ rest.flatMap Prod.snd).Perm (v ++ rest.flatMap Prod.snd ++ [a])
      rw [List.append_assoc, List.append_assoc]
      exact List.perm_append_comm.append_left v
    · rw [setEntry, lookupEntry, if_neg hk, if_neg hk, List.flatMap_cons, List.flatMap_cons, List.append_assoc]
      exact ih.append_left v

theorem group_perm (l : List (κ × α)) : ((group l).entries.flatMap Prod.snd).Perm (l.map Prod.snd) := by
  induction l using List.reverseRecOn with
  | nil => exact .refl _
  | append_singleton l e ih =>
    rw [group_concat, List.map_append]
    exact (flatMap_setEntry e.1 e.2 (group l).entries).trans (ih.append_right [e.2])

end ops

end Dict
