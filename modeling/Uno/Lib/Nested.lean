import Uno.Lib.Dict

/-!
# Nested dictionaries

A tree of dictionaries with leaves of any type, and what stands at a path of keys (`find`). Below a leaf
everything is `hidden`; where a dictionary lacks a key the path is `missing`. Looking into one tree and then,
where that has nothing, into another one is associative (`Found.orElse_assoc`).
-/

/-- A value that is a dictionary of values, or a leaf. -/
inductive Nested (κ α : Type) where
  | leaf (v : α)
  | dict (entries : List (κ × Nested κ α))

namespace Nested

variable {κ α : Type}

abbrev Items (κ α : Type) := List (κ × Nested κ α)

/-- No dictionary has a key twice. -/
inductive Wf : Nested κ α → Prop
  | leaf (v : α) : Wf (.leaf v)
  | dict {entries : Items κ α} (nodup : (entries.map Prod.fst).Nodup) (wf : ∀ e ∈ entries, Wf e.2) :
      Wf (.dict entries)

/-- What stands at a path. -/
inductive Found (α : Type) where
  | missing
  /-- A prefix of the path leads to a leaf. -/
  | hidden
  | dict
  | leaf (v : α)
  deriving DecidableEq

/-- The first of two findings, unless it is missing. -/
def Found.orElse : Found α → Found α → Found α
  | .missing, g => g
  | f, _ => f

@[simp] theorem Found.orElse_missing (f : Found α) : f.orElse .missing = f := by cases f <;> rfl

@[simp] theorem Found.missing_orElse (f : Found α) : Found.missing.orElse f = f := rfl

theorem Found.orElse_assoc (f g h : Found α) : (f.orElse g).orElse h = f.orElse (g.orElse h) := by
  cases f <;> rfl

theorem Found.orElse_self_right (f g : Found α) : (f.orElse g).orElse g = f.orElse g := by
  cases f with
  | missing => cases g <;> rfl
  | hidden => rfl
  | dict => rfl
  | leaf v => rfl

section find
variable [DecidableEq κ]

def find : Nested κ α → List κ → Found α
  | .leaf v, [] => .leaf v
  | .dict _, [] => .dict
  | .leaf _, _ :: _ => .hidden
  | .dict entries, k :: path =>
    match Dict.lookupEntry k entries with
    | some t => t.find path
    | none => .missing

@[simp] theorem find_dict_nil (entries : Items κ α) : (dict entries).find [] = .dict := by rw [find]

@[simp] theorem find_leaf_nil (v : α) : (leaf v : Nested κ α).find [] = .leaf v := by rw [find]

@[simp] theorem find_leaf_cons (v : α) (k : κ) (path : List κ) :
    (leaf v : Nested κ α).find (k :: path) = .hidden := by rw [find]

theorem find_dict_of_some {entries : Items κ α} {k : κ} {t : Nested κ α}
    (h : Dict.lookupEntry k entries = some t) (path : List κ) :
    (dict entries).find (k :: path) = t.find path := by rw [find, h]

theorem find_dict_of_none {entries : Items κ α} {k : κ} (h : Dict.lookupEntry k entries = none)
    (path : List κ) : (dict entries).find (k :: path) = .missing := by rw [find, h]

/-- What stands at a path below a value that may be absent. -/
def findIn (t : Option (Nested κ α)) (path : List κ) : Found α :=
  match t with
  | some t => t.find path
  | none => .missing

theorem find_dict_cons (entries : Items κ α) (k : κ) (path : List κ) :
    (dict entries).find (k :: path) = findIn (Dict.lookupEntry k entries) path := by
  cases h : Dict.lookupEntry k entries with
  | none => exact find_dict_of_none h path
  | some t => exact find_dict_of_some h path

/-- The two trees have the same at every path: they are equal up to the order of their keys. -/
def Same (t u : Nested κ α) : Prop := ∀ path, t.find path = u.find path

theorem Same.symm {t u : Nested κ α} (h : Same t u) : Same u t := fun path => (h path).symm

/-- Some path leads to a dictionary in the one tree and to a leaf in the other. -/
def Conflict (t u : Nested κ α) : Prop := ∃ path v, t.find path = .dict ∧ u.find path = .leaf v

theorem conflict_dict_iff {es ds : Items κ α} :
    Conflict (.dict es) (.dict ds) ↔ ∃ k t u, Dict.lookupEntry k es = some t ∧
      Dict.lookupEntry k ds = some u ∧ Conflict t u := by
  constructor
  · rintro ⟨path, v, hdict, hleaf⟩
    cases path with
    | nil => cases (find_dict_nil ds).symm.trans hleaf
    | cons k path =>
      cases ht : Dict.lookupEntry k es with
      | none => cases (find_dict_of_none ht path).symm.trans hdict
      | some t =>
        cases hu : Dict.lookupEntry k ds with
        | none => cases (find_dict_of_none hu path).symm.trans hleaf
        | some u =>
          rw [find_dict_of_some ht] at hdict
          rw [find_dict_of_some hu] at hleaf
          exact ⟨k, t, u, ht, hu, path, v, hdict, hleaf⟩
  · rintro ⟨k, t, u, ht, hu, path, v, hdict, hleaf⟩
    refine ⟨k :: path, v, ?_, ?_⟩
    · rw [find_dict_of_some ht, hdict]
    · rw [find_dict_of_some hu, hleaf]

end find

end Nested
