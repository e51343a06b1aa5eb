import Mathlib.Data.List.Basic
import Mathlib.Data.List.Nodup

/-!
# Tables whose writes replace

A table with a primary key and groups of unique columns. Writing a record deletes the rows that agree with the
record on some group (`clashes`), and inserts what is stored of it; this fails when a row that stays has the
primary key of the record.

Records that do not clash with one another leave the rows that clash with none of them, followed by their own
(`writeAll_eq_some`).
-/

namespace Uno

/-- The primary key, and whether a record agrees with a row on a group of unique columns. -/
structure RowKeys (ρ : Type) where
  id : ρ → ℕ
  clashes : ρ → ρ → Bool

namespace RowKeys

variable {ρ : Type} (k : RowKeys ρ) (stored : ρ → ρ)

/-- The rows that stay when a record is written. -/
def spared (rows : List ρ) (r : ρ) : List ρ := rows.filter fun row => !k.clashes r row

def write (rows : List ρ) (r : ρ) : Option (List ρ) :=
  if ∃ row ∈ k.spared rows r, k.id row = k.id r then none else some (k.spared rows r ++ [stored r])

def writeAll (rows records : List ρ) : Option (List ρ) := records.foldlM (k.write stored) rows

/-- The stored form of a record clashes with no later record. -/
def Distinct (records : List ρ) : Prop := records.Pairwise fun r r' => k.clashes r' (stored r) = false

variable {k stored} {rows records out : List ρ}

theorem write_eq_some {r : ρ} (h : k.write stored rows r = some out) : out = k.spared rows r ++ [stored r] := by
  unfold write at h
  split_ifs at h
  exact (Option.some.inj h).symm

theorem writeAll_eq_some (hdistinct : k.Distinct stored records) (h : k.writeAll stored rows records = some out) :
    out = (rows.filter fun row => records.all fun r => !k.clashes r row) ++ records.map stored := by
  induction records generalizing rows with
  | nil =>
    obtain rfl := Option.some.inj h
    simp
  | cons r rest ih =>
    obtain ⟨hr, hrest⟩ := List.pairwise_cons.mp hdistinct
    rw [writeAll, List.foldlM_cons] at h
    obtain ⟨rows', hwrite, hfold⟩ := Option.bind_eq_some_iff.mp h
    obtain rfl := write_eq_some hwrite
    have hkept : [stored r].filter (fun row => rest.all fun r' => !k.clashes r' row) = [stored r] := by
      apply List.filter_eq_self.mpr
      intro row hrow
      rw [List.mem_singleton.mp hrow, List.all_eq_true]
      intro r' hr'
      rw [hr r' hr']
      rfl
    rw [ih hrest hfold, List.filter_append, hkept, spared, List.filter_filter, List.append_assoc]
    congr 1
    apply List.filter_congr
    intro row _
    rw [List.all_cons, Bool.and_comm]

/-- A run of writes succeeds when the records have primary keys of their own, which only rows they replace have. -/
theorem exists_writeAll (hdistinct : k.Distinct stored records) (hstored : ∀ r, k.id (stored r) = k.id r)
    (hids : (records.map k.id).Nodup)
    (hfree : ∀ row ∈ rows, ∀ r ∈ records, k.id row = k.id r → k.clashes r row) :
    ∃ out, k.writeAll stored rows records = some out := by
  induction records generalizing rows with
  | nil => exact ⟨rows, rfl⟩
  | cons r rest ih =>
    obtain ⟨hr, hrest⟩ := List.pairwise_cons.mp hdistinct
    rw [List.map_cons, List.nodup_cons] at hids
    have hwrite : k.write stored rows r = some (k.spared rows r ++ [stored r]) := by
      rw [write, if_neg]
      rintro ⟨row, hrow, hid⟩
      obtain ⟨hrow, hclash⟩ := List.mem_filter.mp hrow
      rw [hfree row hrow r List.mem_cons_self hid] at hclash
      cases hclash
    have hnext : ∀ row ∈ k.spared rows r ++ [stored r], ∀ r' ∈ rest, k.id row = k.id r' → k.clashes r' row := by
      intro row hrow r' hr' hid
      rcases List.mem_append.mp hrow with hrow | hrow
      · exact hfree row (List.mem_filter.mp hrow).1 r' (List.mem_cons_of_mem _ hr') hid
      · rw [List.mem_singleton.mp hrow, hstored] at hid
        exact absurd (hid ▸ List.mem_map_of_mem hr') hids.1
    obtain ⟨out, hout⟩ := ih hrest hids.2 hnext
    refine ⟨out, ?_⟩
    rw [writeAll, List.foldlM_cons, hwrite]
    exact hout

theorem writeAll_indexed {ι : Type} {rowAt : ι → Option ρ} {is js : List ι} (hnodup : (js ++ is).Nodup)
    (hclash : ∀ i j r r', i ≠ j → rowAt i = some r → rowAt j = some r' →
      k.clashes r' r = false ∧ k.clashes r' (stored r) = false)
    (hid : ∀ i j r r', rowAt i = some r → rowAt j = some r' → k.id r = k.id r' → i = j)
    (hstored : ∀ r, k.id (stored r) = k.id r) :
    k.writeAll stored (js.filterMap rowAt) (is.filterMap rowAt) =
      some (js.filterMap rowAt ++ (is.filterMap rowAt).map stored) := by
  obtain ⟨-, his, hdisjoint⟩ := List.nodup_append.mp hnodup
  have hdistinct : k.Distinct stored (is.filterMap rowAt) := by
    apply List.pairwise_filterMap.mpr
    refine his.imp fun {i j} hne r hr r' hr' => ?_
    exact (hclash i j r r' hne hr hr').2
  have hids : ((is.filterMap rowAt).map k.id).Nodup := by
    apply List.pairwise_map.mpr
    apply List.pairwise_filterMap.mpr
    refine his.imp fun {i j} hne r hr r' hr' heq => ?_
    exact hne (hid i j r r' hr hr' heq)
  have hother : ∀ row ∈ js.filterMap rowAt, ∀ r ∈ is.filterMap rowAt,
      k.clashes r row = false ∧ k.id row ≠ k.id r := by
    intro row hrow r hr
    obtain ⟨j, hj, hrow⟩ := List.mem_filterMap.mp hrow
    obtain ⟨i, hi, hr⟩ := List.mem_filterMap.mp hr
    have hne : j ≠ i := hdisjoint j hj i hi
    exact ⟨(hclash j i row r hne hrow hr).1, fun heq => hne (hid j i row r hrow hr heq)⟩
  obtain ⟨out, hout⟩ := exists_writeAll hdistinct hstored hids fun row hrow r hr heq =>
    absurd heq (hother row hrow r hr).2
  rw [hout, writeAll_eq_some hdistinct hout, List.filter_eq_self.mpr]
  intro row hrow
  rw [List.all_eq_true]
  intro r hr
  rw [(hother row hrow r hr).1]
  rfl

/-! ### Places -/

section places
variable {ι : Type} {place : ρ → ι}

/-- What is in a table after records were written into it, each at its place. -/
structure Imported (place : ρ → ι) (rows records out : List ρ) : Prop where
  nodup : (out.map place).Nodup
  written : ∀ r ∈ records, r ∈ out
  kept : ∀ row ∈ out, row ∈ rows ∨ row ∈ records

theorem Imported.eq_record (h : Imported place rows records out) {row r : ρ} (hrow : row ∈ out) (hr : r ∈ records)
    (hplace : place row = place r) : row = r :=
  List.inj_on_of_nodup_map h.nodup hrow (h.written r hr) hplace

/-- Records at places of their own are written, in any order, if each replaces what is at its place and a row with the
primary key of a record is at the place of the record. -/
theorem exists_imported {sorted : List ρ} (hperm : sorted.Perm records) (hrows : (rows.map place).Nodup)
    (hrecords : (records.map place).Nodup) (hids : (records.map k.id).Nodup)
    (hclash : ∀ r ∈ records, ∀ r' ∈ records, place r ≠ place r' → k.clashes r' r = false)
    (hreplace : ∀ row ∈ rows, ∀ r ∈ records, place row = place r → k.clashes r row)
    (hfree : ∀ row ∈ rows, ∀ r ∈ records, k.id row = k.id r → place row = place r) :
    ∃ out, k.writeAll (fun r => r) rows sorted = some out ∧ Imported place rows records out := by
  have hmem : ∀ r, r ∈ sorted ↔ r ∈ records := fun r => hperm.mem_iff
  have hsorted : (sorted.map place).Nodup := (hperm.map place).nodup_iff.mpr hrecords
  have hdistinct : k.Distinct (fun r => r) sorted := by
    refine (List.pairwise_map.mp hsorted).imp_of_mem fun {r r'} hr hr' hne => ?_
    exact hclash r ((hmem r).mp hr) r' ((hmem r').mp hr') hne
  obtain ⟨out, hout⟩ := exists_writeAll hdistinct (fun _ => rfl) ((hperm.map k.id).nodup_iff.mpr hids)
    fun row hrow r hr hid => hreplace row hrow r ((hmem r).mp hr) (hfree row hrow r ((hmem r).mp hr) hid)
  have hform := writeAll_eq_some hdistinct hout
  rw [List.map_id'] at hform
  refine ⟨out, hout, ?_, fun r hr => ?_, fun row hrow => ?_⟩
  · rw [hform, List.map_append]
    refine List.nodup_append'.mpr ⟨(List.filter_sublist.map place).nodup hrows, hsorted, ?_⟩
    intro i hi hi'
    obtain ⟨row, hrow, rfl⟩ := List.mem_map.mp hi
    obtain ⟨r, hr, heq⟩ := List.mem_map.mp hi'
    obtain ⟨hrow, hspared⟩ := List.mem_filter.mp hrow
    have hkept := List.all_eq_true.mp hspared r hr
    rw [hreplace row hrow r ((hmem r).mp hr) heq.symm] at hkept
    cases hkept
  · rw [hform]
    exact List.mem_append_right _ ((hmem r).mpr hr)
  · rw [hform] at hrow
    rcases List.mem_append.mp hrow with hrow | hrow
    · exact .inl (List.mem_filter.mp hrow).1
    · exact .inr ((hmem row).mp hrow)

end places

end RowKeys

end Uno
