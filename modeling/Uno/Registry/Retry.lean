import Uno.Registry.Save

/-!
# Retrying a failed save

A consistent state stays consistent while `_save_all` writes (`Saved.consistent`). So a call that returns
leaves every object clean with its row up to date, but for objects that an equal one keeps from being
saved. A call that fails leaves the marks right only where it had nothing to change before the write that
fails, and can be repeated only if the id that the failed object has kept is needed by no other one
(`saveAll_retryable`).
-/

namespace Uno

variable {Ref Table Key Value : Type}

/-! ### What saving does not change -/

/-- The heaps differ in the marks, ids and times of their objects only. -/
def SameObjects (h h' : Heap Ref Table Key Value) : Prop :=
  ∀ r, (h' r).table = (h r).table ∧ (h' r).eqProperties = (h r).eqProperties ∧ (h' r).fields = (h r).fields ∧
    (h' r).valid = (h r).valid ∧ ((h r).table = none → (h' r).objectId = (h r).objectId)

namespace SameObjects

variable {h h' h'' : Heap Ref Table Key Value}

theorem refl (h : Heap Ref Table Key Value) : SameObjects h h := fun _ => ⟨rfl, rfl, rfl, rfl, fun _ => rfl⟩

theorem trans (hh : SameObjects h h') (hh' : SameObjects h' h'') : SameObjects h h'' := fun r =>
  ⟨(hh' r).1.trans (hh r).1, (hh' r).2.1.trans (hh r).2.1, (hh' r).2.2.1.trans (hh r).2.2.1,
    (hh' r).2.2.2.1.trans (hh r).2.2.2.1,
    fun ht => ((hh' r).2.2.2.2 ((hh r).1.trans ht)).trans ((hh r).2.2.2.2 ht)⟩

theorem table_eq (hh : SameObjects h h') (r : Ref) : (h' r).table = (h r).table := (hh r).1

theorem transient_eq (hh : SameObjects h h') (T : Targets Ref) : T.transient h' = T.transient h := by
  induction T with
  | nil => rfl
  | cons tgt nested rest ihn ihr => rw [Targets.transient, Targets.transient, hh.table_eq, ihn, ihr]

theorem marks_eq (hh : SameObjects h h') (tgt : Ref × Targets Ref) : marks h' tgt = marks h tgt := by
  rw [marks, marks, hh.transient_eq]

end SameObjects

theorem Targets.table_of_mem_transient {h : Heap Ref Table Key Value} {r : Ref} :
    ∀ {T : Targets Ref}, r ∈ T.transient h → (h r).table = none
  | .cons tgt nested rest, hr => by
    rw [Targets.transient, List.mem_append] at hr
    rcases hr with hr | hr
    · split_ifs at hr with htable
      · rcases List.mem_cons.mp hr with rfl | hr
        · exact Option.isNone_iff_eq_none.mp htable
        · exact Targets.table_of_mem_transient hr
      · exact absurd hr List.not_mem_nil
    · exact Targets.table_of_mem_transient hr

theorem not_mem_marks {h : Heap Ref Table Key Value} {tgt : Ref × Targets Ref} {r : Ref}
    (ht : (h r).table.isSome) (hr : r ≠ tgt.1) : r ∉ marks h tgt := by
  intro hmem
  rcases List.mem_cons.mp hmem with rfl | hmem
  · exact hr rfl
  · rw [Targets.table_of_mem_transient hmem] at ht
    cases ht

section Marks

variable [DecidableEq Ref] {h : Heap Ref Table Key Value} {tgt : Ref × Targets Ref} {r : Ref}

theorem markSaved_same : SameObjects h (markSaved tgt h) := by
  intro r
  unfold markSaved
  split_ifs
  · exact ⟨rfl, rfl, rfl, rfl, fun _ => rfl⟩
  · exact ⟨rfl, rfl, rfl, rfl, fun _ => rfl⟩
  · exact ⟨rfl, rfl, rfl, rfl, fun _ => rfl⟩

theorem markSaved_saved : (markSaved tgt h r).saved = true ↔ r ∈ marks h tgt ∨ (h r).saved = true := by
  unfold markSaved marks
  split_ifs with hr ht
  · simp [hr]
  · simp [ht]
  · simp [hr, ht]

theorem markSaved_self : markSaved tgt h tgt.1 =
    { h tgt.1 with saved := true, loaded := (h tgt.1).table.isSome } := by
  unfold markSaved
  rw [if_pos rfl]

theorem markSaved_of_isSome (ht : (h r).table.isSome) (hr : r ≠ tgt.1) : markSaved tgt h r = h r := by
  unfold markSaved
  rw [if_neg hr, if_neg fun hmem => not_mem_marks ht hr (List.mem_cons_of_mem _ hmem)]

end Marks

/-! ### Rows and ids -/

namespace Database

variable [DecidableEq Table] {db db₁ : Database Table Value} {t : Table} {i : ℕ}

theorem rows_setRow (row : Row Value) (t' : Table) (j : ℕ) :
    (db.setRow t i row).rows t' j = if t' = t ∧ j = i then some row else db.rows t' j := by
  unfold Database.setRow
  by_cases ht : t' = t
  · subst ht
    by_cases hj : j = i
    · subst hj; simp
    · simp [hj]
  · simp [ht]

theorem rows_assignId {id : Option ℕ} (h : db.assignId t id = (i, db₁)) : db₁.rows = db.rows := by
  unfold Database.assignId at h
  cases id <;> cases h <;> rfl

theorem nextId_assignId {id : Option ℕ} (h : db.assignId t id = (i, db₁)) (t' : Table) :
    db.nextId t' ≤ db₁.nextId t' := by
  unfold Database.assignId at h
  cases id with
  | some j => cases h; exact Nat.le_refl _
  | none =>
    cases h
    by_cases ht : t' = t
    · subst ht; simp
    · simp [ht]

variable (db t i) in
theorem write_of_isSome {create : Bool} (row : Row Value) (h : create = !(db.rows t i).isSome) :
    db.write create t i row = some (db.setRow t i row) := by
  unfold Database.write
  subst h
  cases (db.rows t i).isSome <;> rfl

end Database

/-- An id that an object may be saved with: its own or a new one. -/
def NewId (db : Database Table Value) (o : DatabaseObject Table Key Value) (i : ℕ) : Prop :=
  o.id = some i ∨ o.id = none ∧ ∀ t, o.table = some t → db.nextId t < i

theorem NewId.id_eq {db : Database Table Value} {o : DatabaseObject Table Key Value} {i : ℕ} (hi : NewId db o i)
    (hrow : (db.rowOf o).isSome) :
    o.id = some i := by
  rcases hi with hid | ⟨hid, -⟩
  · exact hid
  · unfold Database.rowOf at hrow
    rw [hid] at hrow
    cases ht : o.table <;> rw [ht] at hrow <;> cases hrow

namespace Consistent

variable {h : Heap Ref Table Key Value} {db db₁ : Database Table Value} {r : Ref} {t : Table}
  {P : Ref → Prop} {i : ℕ}

theorem newId [DecidableEq Table] (ht : (h r).table = some t) (hassign : db.assignId t (h r).id = (i, db₁)) :
    NewId db (h r) i := by
  cases hid : (h r).id with
  | some j =>
    rw [hid] at hassign
    cases hassign
    exact .inl hid
  | none =>
    rw [hid] at hassign
    cases hassign
    refine .inr ⟨hid, fun t' ht' => ?_⟩
    rw [ht] at ht'
    cases ht'
    exact Nat.lt_succ_self _

theorem rowOf_eq_none (hc : Consistent P h db) (hp : P r) (ht : (h r).table = some t) (hid : (h r).id = none)
    (hlt : db.nextId t < i) : db.rows t i = none := by
  cases hrow : db.rows t i with
  | none => rfl
  | some row =>
    have := hc.row_le r t hp ht hid i (by rw [hrow]; rfl)
    omega

theorem rowOf_eq_of_newId {o : DatabaseObject Table Key Value} (hc : Consistent P h db) (hp : P r)
    (hi : NewId db (h r) i) (ht : o.table = (h r).table) (hid : o.id = some i) :
    db.rowOf o = db.rowOf (h r) := by
  unfold Database.rowOf
  rw [ht, hid]
  cases ht' : (h r).table with
  | none => rfl
  | some t =>
    rcases hi with hid' | ⟨hid', hlt⟩
    · rw [hid']
    · rw [hid']
      exact hc.rowOf_eq_none hp ht' hid' (hlt t ht')

theorem loaded_eq [DecidableEq Table] (hc : Consistent P h db) (hp : P r) (ht : (h r).table = some t)
    (hassign : db.assignId t (h r).id = (i, db₁)) : (h r).loaded = (db₁.rows t i).isSome := by
  have hloaded := hc.loaded_iff r (by rw [ht]; rfl)
  unfold Database.rowOf at hloaded
  rw [Database.rows_assignId hassign]
  rcases newId ht hassign with hid | ⟨hid, hlt⟩
  · rw [ht, hid] at hloaded
    exact Bool.eq_iff_iff.mpr hloaded
  · rw [hc.rowOf_eq_none hp ht hid (hlt t ht)]
    rw [ht, hid] at hloaded
    exact Bool.eq_iff_iff.mpr hloaded

theorem assignId_ne (hc : Consistent P h db) (hp : P r) (ht : (h r).table = some t) (hi : NewId db (h r) i)
    {r' : Ref} (ht' : (h r').table = some t) (hr : r' ≠ r) : (h r').id ≠ some i := by
  intro hid'
  rcases hi with hid | ⟨hid, hlt⟩
  · exact hr (hc.id_inj r' r t i ht' ht hid' hid)
  · have hle := hc.id_le r t hp ht hid r' i ht' hid'
    have := hlt t ht
    omega

end Consistent

/-! ### Saving one object -/

section Step

variable {h h' : Heap Ref Table Key Value} {db db' : Database Table Value} {tgt : Ref × Targets Ref}
  {clock : Ref → ℕ} {left : Option ℕ} {r : Ref} {t : Table} {P : Ref → Prop}

/-- An object that was saved with an id at a time. -/
def DatabaseObject.savedAs (o : DatabaseObject Table Key Value) (i now : ℕ) : DatabaseObject Table Key Value :=
  { o with id := some i, objectId := some i, generationTs := now, saved := true, loaded := true }

/-- What a successful save did to the objects and the rows. -/
structure Saved [DecidableEq Table] (clock : Ref → ℕ) (tgt : Ref × Targets Ref) (h : Heap Ref Table Key Value)
    (db : Database Table Value) (h' : Heap Ref Table Key Value) (db' : Database Table Value) : Prop where
  same : SameObjects h h'
  saved_iff : ∀ r, (h' r).saved = true ↔ r ∈ marks h tgt ∨ (h r).saved = true
  other : ∀ r, r ≠ tgt.1 → (h r).table.isSome → h' r = h r
  transient : (h tgt.1).table = none → db' = db
  row : ∀ t, (h tgt.1).table = some t → ∃ i db₁, db.assignId t (h tgt.1).id = (i, db₁) ∧
    db' = db₁.setRow t i ⟨(h tgt.1).fields, clock tgt.1⟩ ∧ h' tgt.1 = (h tgt.1).savedAs i (clock tgt.1)

theorem sameObjects_update [DecidableEq Ref] {o : DatabaseObject Table Key Value} (ht : o.table = (h r).table)
    (he : o.eqProperties = (h r).eqProperties) (hf : o.fields = (h r).fields) (hv : o.valid = (h r).valid)
    (ho : (h r).table = none → o.objectId = (h r).objectId) : SameObjects h (Function.update h r o) := by
  intro q
  by_cases hq : q = r
  · subst hq
    rw [Function.update_self]
    exact ⟨ht, he, hf, hv, ho⟩
  · rw [Function.update_of_ne hq]
    exact ⟨rfl, rfl, rfl, rfl, fun _ => rfl⟩

variable (tgt) in
theorem markSaved_update [DecidableEq Ref] {o : DatabaseObject Table Key Value} (hsaved : o.saved = (h tgt.1).saved)
    (hsame : SameObjects h (Function.update h tgt.1 o)) :
    SameObjects h (markSaved tgt (Function.update h tgt.1 o)) ∧
    (∀ r, (markSaved tgt (Function.update h tgt.1 o) r).saved = true ↔ r ∈ marks h tgt ∨ (h r).saved = true) ∧
    ∀ r, r ≠ tgt.1 → (h r).table.isSome → markSaved tgt (Function.update h tgt.1 o) r = h r := by
  refine ⟨hsame.trans markSaved_same, fun r => ?_, fun r hr ht => ?_⟩
  · rw [markSaved_saved, hsame.marks_eq]
    by_cases hr : r = tgt.1
    · subst hr
      rw [Function.update_self, hsaved]
    · rw [Function.update_of_ne hr]
  · rw [markSaved_of_isSome (by rw [hsame.table_eq]; exact ht) hr, Function.update_of_ne hr]

variable [DecidableEq Ref] [DecidableEq Table]

variable (clock) in
theorem Consistent.saveObject_cases (hc : Consistent P h db) (hp : P tgt.1) (left : Option ℕ) :
    (∃ h' db' left', saveObject clock tgt left h db = (h', some (left', db')) ∧ Saved clock tgt h db h' db' ∧
      ((h tgt.1).table = none ∧ left' = left ∨ (h tgt.1).table.isSome ∧ left ≠ some 0 ∧ left' = left.map (· - 1))) ∨
    ∃ t, (h tgt.1).table = some t ∧ left = some 0 ∧
      saveObject clock tgt left h db = (stamp (clock tgt.1) (db.assignId t (h tgt.1).id).1 tgt.1 h, none) := by
  cases ht : (h tgt.1).table with
  | none =>
    obtain ⟨hsame, hsaved, hother⟩ := markSaved_update tgt (h := h)
      (o := { h tgt.1 with generationTs := clock tgt.1 }) rfl (sameObjects_update rfl rfl rfl rfl fun _ => rfl)
    refine .inl ⟨_, _, _, by rw [saveObject, ht], ⟨hsame, hsaved, hother, fun _ => rfl, fun t ht' => ?_⟩,
      .inl ⟨rfl, rfl⟩⟩
    rw [ht] at ht'
    cases ht'
  | some t =>
    by_cases hleft : left = some 0
    · exact .inr ⟨t, rfl, hleft, by simp only [saveObject, ht, if_pos hleft]⟩
    · cases hassign : db.assignId t (h tgt.1).id with
      | mk i db₁ =>
        have hwrite := Database.write_of_isSome db₁ t i ⟨(h tgt.1).fields, clock tgt.1⟩
          (congrArg (! ·) (hc.loaded_eq hp ht hassign))
        have hrow : (stamp (clock tgt.1) i tgt.1 h tgt.1).row = ⟨(h tgt.1).fields, clock tgt.1⟩ := by
          rw [stamp, Function.update_self, DatabaseObject.row]
        obtain ⟨hsame, hsaved, hother⟩ := markSaved_update tgt (h := h)
          (o := { h tgt.1 with generationTs := clock tgt.1, id := some i, objectId := some i }) rfl
          (sameObjects_update rfl rfl rfl rfl fun hnone => by rw [ht] at hnone; cases hnone)
        have hresult : saveObject clock tgt left h db =
            (markSaved tgt (Function.update h tgt.1
              { h tgt.1 with generationTs := clock tgt.1, id := some i, objectId := some i }),
              some (left.map (· - 1), db₁.setRow t i ⟨(h tgt.1).fields, clock tgt.1⟩)) := by
          unfold saveObject
          rw [ht]
          simp only [hassign, if_neg hleft, hrow, hwrite]
          simp only [stamp, Function.update_self, Function.update_idem]
        refine .inl ⟨_, _, _, hresult, ⟨hsame, hsaved, hother, fun ht' => ?_, fun t' ht' => ?_⟩,
          .inr ⟨rfl, hleft, rfl⟩⟩
        · rw [ht] at ht'
          cases ht'
        · rw [ht] at ht'
          cases ht'
          refine ⟨i, db₁, hassign, rfl, ?_⟩
          rw [markSaved_self, Function.update_self, ht]
          rfl

end Step

namespace Saved

section Rows

variable [DecidableEq Table] {h h' : Heap Ref Table Key Value} {db db' : Database Table Value}
  {tgt : Ref × Targets Ref} {clock : Ref → ℕ} {r : Ref} {t : Table} {P : Ref → Prop}

theorem row_self (hs : Saved clock tgt h db h' db') (ht : (h tgt.1).table.isSome) :
    db'.rowOf (h' tgt.1) = some (h' tgt.1).row ∧ (h' tgt.1).loaded = true ∧ (h' tgt.1).objectId = (h' tgt.1).id := by
  obtain ⟨t, ht⟩ := Option.isSome_iff_exists.mp ht
  obtain ⟨i, db₁, -, rfl, hself⟩ := hs.row t ht
  rw [hself]
  refine ⟨?_, rfl, rfl⟩
  show ((h tgt.1).table.bind fun t' => (some i).bind _) = _
  rw [ht]
  simp [Database.rows_setRow, DatabaseObject.row, DatabaseObject.savedAs]

theorem rowOf_other (hs : Saved clock tgt h db h' db') (hc : Consistent P h db) (hp : P tgt.1) (hr : r ≠ tgt.1)
    (ht : (h r).table.isSome) : db'.rowOf (h' r) = db.rowOf (h r) := by
  rw [hs.other r hr ht]
  cases htgt : (h tgt.1).table with
  | none => rw [hs.transient htgt]
  | some t =>
    obtain ⟨i, db₁, hassign, rfl, -⟩ := hs.row t htgt
    unfold Database.rowOf
    cases ht : (h r).table with
    | none => rfl
    | some t' =>
      cases hid : (h r).id with
      | none => rfl
      | some j =>
        have hne : ¬ (t' = t ∧ j = i) := by
          rintro ⟨rfl, rfl⟩
          exact hc.assignId_ne hp htgt (Consistent.newId htgt hassign) ht hr hid
        simp only [Option.bind_some, Database.rows_setRow, if_neg hne, Database.rows_assignId hassign]

theorem nextId_le (hs : Saved clock tgt h db h' db') (t : Table) : db.nextId t ≤ db'.nextId t := by
  cases htgt : (h tgt.1).table with
  | none =>
    exact hs.transient htgt ▸ Nat.le_refl _
  | some t' =>
    obtain ⟨i, db₁, hassign, rfl, -⟩ := hs.row t' htgt
    exact Database.nextId_assignId hassign t

theorem newId (hs : Saved clock tgt h db h' db') {i : ℕ} (hr : r ≠ tgt.1) (ht : (h r).table.isSome)
    (hi : NewId db' (h' r) i) : NewId db (h r) i := by
  rw [hs.other r hr ht] at hi
  rcases hi with hid | ⟨hid, hlt⟩
  · exact .inl hid
  · exact .inr ⟨hid, fun t ht => Nat.lt_of_le_of_lt (hs.nextId_le t) (hlt t ht)⟩

theorem nextId_eq (hs : Saved clock tgt h db h' db') (hid : (h tgt.1).id ≠ none) (t : Table) :
    db'.nextId t = db.nextId t := by
  cases htgt : (h tgt.1).table with
  | none => rw [hs.transient htgt]
  | some t' =>
    obtain ⟨i, db₁, hassign, rfl, -⟩ := hs.row t' htgt
    obtain ⟨j, hj⟩ := Option.ne_none_iff_exists'.mp hid
    rw [hj] at hassign
    cases hassign
    rfl

theorem ne_of_id_eq_none (hs : Saved clock tgt h db h' db') (ht : (h r).table = some t) (hid : (h' r).id = none) :
    r ≠ tgt.1 := by
  rintro rfl
  obtain ⟨i, -, -, -, hself⟩ := hs.row t ht
  rw [hself] at hid
  cases hid

theorem id_le_nextId (hs : Saved clock tgt h db h' db') (hc : Consistent P h db) (hr : P r)
    (ht : (h r).table = some t) (hid : (h r).id = none) {i : ℕ} (htgt : (h tgt.1).table = some t)
    (hi : (h' tgt.1).id = some i) : i ≤ db'.nextId t := by
  obtain ⟨j, db₁, hassign, rfl, hself⟩ := hs.row t htgt
  rw [hself] at hi
  cases hi
  show i ≤ db₁.nextId t
  cases htid : (h tgt.1).id with
  | some j =>
    rw [htid] at hassign
    cases hassign
    exact hc.id_le r t hr ht hid tgt.1 i htgt htid
  | none =>
    rw [htid] at hassign
    cases hassign
    simp

theorem consistent (hs : Saved clock tgt h db h' db') (hc : Consistent P h db) (hp : P tgt.1) :
    Consistent P h' db' where
  loaded_iff r ht := by
    rw [hs.same.table_eq] at ht
    by_cases hr : r = tgt.1
    · subst hr
      obtain ⟨hrow, hloaded, -⟩ := hs.row_self ht
      rw [hrow, hloaded]
      exact ⟨fun _ => rfl, fun _ => rfl⟩
    · rw [hs.rowOf_other hc hp hr ht, hs.other r hr ht]
      exact hc.loaded_iff r ht
  row_of_saved r ht hsaved := by
    rw [hs.same.table_eq] at ht
    by_cases hr : r = tgt.1
    · subst hr
      exact (hs.row_self ht).1
    · rw [hs.rowOf_other hc hp hr ht]
      rw [hs.other r hr ht] at hsaved ⊢
      exact hc.row_of_saved r ht hsaved
  objectId_of_loaded r ht hloaded := by
    rw [hs.same.table_eq] at ht
    by_cases hr : r = tgt.1
    · subst hr
      exact (hs.row_self ht).2.2
    · rw [hs.other r hr ht] at hloaded ⊢
      exact hc.objectId_of_loaded r ht hloaded
  id_inj := by
    have hne : ∀ r t i, (h tgt.1).table = some t → (h r).table = some t → (h' tgt.1).id = some i →
        (h' r).id = some i → r = tgt.1 := by
      intro r t i htgt ht hi hid
      by_contra hr
      obtain ⟨j, db₁, hassign, -, hself⟩ := hs.row t htgt
      rw [hself] at hi
      cases hi
      rw [hs.other r hr (by rw [ht]; rfl)] at hid
      exact hc.assignId_ne hp htgt (Consistent.newId htgt hassign) ht hr hid
    intro r r' t i ht ht' hid hid'
    rw [hs.same.table_eq] at ht ht'
    by_cases hr : r = tgt.1
    · subst hr
      exact (hne r' t i ht ht' hid hid').symm
    · by_cases hr' : r' = tgt.1
      · subst hr'
        exact hne r t i ht' ht hid' hid
      · rw [hs.other r hr (by rw [ht]; rfl)] at hid
        rw [hs.other r' hr' (by rw [ht']; rfl)] at hid'
        exact hc.id_inj r r' t i ht ht' hid hid'
  row_le r t hpr ht hid i hi := by
    rw [hs.same.table_eq] at ht
    rw [hs.other r (hs.ne_of_id_eq_none ht hid) (by rw [ht]; rfl)] at hid
    by_cases hrow : (db.rows t i).isSome
    · exact Nat.le_trans (hc.row_le r t hpr ht hid i hrow) (hs.nextId_le t)
    · cases htgt : (h tgt.1).table with
      | none =>
        rw [hs.transient htgt] at hi
        exact absurd hi hrow
      | some t' =>
        obtain ⟨j, db₁, hassign, hdb, hself⟩ := hs.row t' htgt
        rw [hdb, Database.rows_setRow, Database.rows_assignId hassign] at hi
        split_ifs at hi with heq
        · obtain ⟨rfl, rfl⟩ := heq
          exact hs.id_le_nextId hc hpr ht hid htgt (by rw [hself]; rfl)
        · exact absurd hi hrow
  id_le r t hpr ht hid r' i ht' hid' := by
    rw [hs.same.table_eq] at ht ht'
    rw [hs.other r (hs.ne_of_id_eq_none ht hid) (by rw [ht]; rfl)] at hid
    by_cases hr' : r' = tgt.1
    · subst hr'
      exact hs.id_le_nextId hc hpr ht hid ht' hid'
    · rw [hs.other r' hr' (by rw [ht']; rfl)] at hid'
      exact Nat.le_trans (hc.id_le r t hpr ht hid r' i ht' hid') (hs.nextId_le t)

end Rows

end Saved

/-! ### Saving all -/

section RowTargets

variable {h h' : Heap Ref Table Key Value} {tgt : Ref × Targets Ref} {r : Ref}

theorem rowTargets_cons (queue : List (Ref × Targets Ref)) : rowTargets h (tgt :: queue) =
    if (h tgt.1).table.isSome then tgt.1 :: rowTargets h queue else rowTargets h queue := by
  unfold rowTargets
  rw [List.map_cons, List.filter_cons]

theorem SameObjects.rowTargets_eq (hh : SameObjects h h') (queue : List (Ref × Targets Ref)) :
    rowTargets h' queue = rowTargets h queue := by
  unfold rowTargets
  simp only [hh.table_eq]

theorem isSome_of_mem_rowTargets {queue : List (Ref × Targets Ref)} (hr : r ∈ rowTargets h queue) :
    (h r).table.isSome := (List.mem_filter.mp hr).2

theorem mem_of_mem_rowTargets {queue : List (Ref × Targets Ref)} (hr : r ∈ rowTargets h queue) :
    r ∈ queue.map Prod.fst := (List.mem_filter.mp hr).1

end RowTargets

section Run

variable [DecidableEq Ref] [DecidableEq Table] {h h' h₁ : Heap Ref Table Key Value} {db db₁ : Database Table Value}
  {tgt : Ref × Targets Ref} {clock : Ref → ℕ} {r : Ref} {t : Table} {P : Ref → Prop} {done : List Ref}
  {failing : Option Ref}

/-- How far a run came: the objects whose rows were written, and the one whose write failed. -/
structure Reached (clock : Ref → ℕ) (done : List Ref) (failing : Option Ref) (h : Heap Ref Table Key Value)
    (db : Database Table Value) (h' : Heap Ref Table Key Value) : Prop where
  same : SameObjects h h'
  saved_of_saved : ∀ r, (h r).saved = true → (h' r).saved = true
  written : ∀ r ∈ done, ∃ i, NewId db (h r) i ∧ h' r = (h r).savedAs i (clock r)
  failed : ∀ r ∈ failing, ∃ i, NewId db (h r) i ∧ h' r = { h r with generationTs := clock r, id := some i }
  other : ∀ r, r ∉ done → r ∉ failing → (h r).table.isSome → h' r = h r
  failed_id : (∀ r ∈ done, (h r).id ≠ none) → ∀ r ∈ failing, (h r).id = none → ∀ t, (h r).table = some t →
    (h' r).id = some (db.nextId t + 1)

omit [DecidableEq Ref] in
theorem Saved.reached (hs : Saved clock tgt h db h₁ db₁) (hrest : Reached clock done failing h₁ db₁ h')
    (hdone : ∀ r ∈ done, (h r).table.isSome ∧ r ≠ tgt.1) (hfailing : ∀ r ∈ failing, (h r).table.isSome ∧ r ≠ tgt.1) :
    Reached clock (if (h tgt.1).table.isSome then tgt.1 :: done else done) failing h db h' where
  same := hs.same.trans hrest.same
  saved_of_saved r hr := hrest.saved_of_saved r ((hs.saved_iff r).mpr (.inr hr))
  written := by
    have hlater : ∀ r ∈ done, ∃ i, NewId db (h r) i ∧ h' r = (h r).savedAs i (clock r) := by
      intro r hr
      obtain ⟨i, hi, heq⟩ := hrest.written r hr
      exact ⟨i, hs.newId (hdone r hr).2 (hdone r hr).1 hi, by rw [heq, hs.other r (hdone r hr).2 (hdone r hr).1]⟩
    split_ifs with ht
    · intro r hr
      rcases List.mem_cons.mp hr with rfl | hr
      · obtain ⟨t, ht'⟩ := Option.isSome_iff_exists.mp ht
        obtain ⟨i, db', hassign, -, hself⟩ := hs.row t ht'
        refine ⟨i, Consistent.newId ht' hassign, ?_⟩
        rw [hrest.other tgt.1 (fun hmem => (hdone _ hmem).2 rfl) (fun hmem => (hfailing _ hmem).2 rfl)
          (by rw [hs.same.table_eq]; exact ht), hself]
      · exact hlater r hr
    · exact hlater
  failed r hr := by
    obtain ⟨i, hi, heq⟩ := hrest.failed r hr
    exact ⟨i, hs.newId (hfailing r hr).2 (hfailing r hr).1 hi, by
      rw [heq, hs.other r (hfailing r hr).2 (hfailing r hr).1]⟩
  other r hr hr' ht := by
    have hne : r ≠ tgt.1 := by
      rintro rfl
      rw [if_pos ht] at hr
      exact hr List.mem_cons_self
    have hnot : r ∉ done := by
      intro hmem
      split_ifs at hr
      · exact hr (List.mem_cons_of_mem _ hmem)
      · exact hr hmem
    rw [hrest.other r hnot hr' (by rw [hs.same.table_eq]; exact ht), hs.other r hne ht]
  failed_id hids r hr hid t ht := by
    have hother := hs.other r (hfailing r hr).2 (hfailing r hr).1
    have hnext : db₁.nextId t = db.nextId t := by
      by_cases htgt : (h tgt.1).table.isSome
      · rw [if_pos htgt] at hids
        exact hs.nextId_eq (hids _ List.mem_cons_self) t
      · rw [hs.transient (Option.not_isSome_iff_eq_none.mp htgt)]
    rw [← hnext]
    refine hrest.failed_id (fun q hq => ?_) r hr (by rw [hother]; exact hid) t (by rw [hother]; exact ht)
    rw [hs.other q (hdone q hq).2 (hdone q hq).1]
    refine hids q ?_
    split_ifs
    · exact List.mem_cons_of_mem _ hq
    · exact hq

variable (clock) in
/-- A run saves all objects, or all before the write that fails. -/
theorem Consistent.saveObjects_cases {queue : List (Ref × Targets Ref)} (left : Option ℕ) (hc : Consistent P h db)
    (hP : ∀ tgt ∈ queue, P tgt.1) (hnodup : (queue.map Prod.fst).Nodup) :
    (∃ h' db', (∀ k, left = some k → (rowTargets h queue).length ≤ k) ∧
      saveObjects clock queue left h db = (h', some (left.map (· - (rowTargets h queue).length), db')) ∧
      Consistent P h' db' ∧ Reached clock (rowTargets h queue) none h db h' ∧
      ∀ r, (h' r).saved = true ↔ r ∈ queue.flatMap (marks h) ∨ (h r).saved = true) ∨
    ∃ k f h', left = some k ∧ (rowTargets h queue)[k]? = some f ∧ saveObjects clock queue left h db = (h', none) ∧
      Reached clock ((rowTargets h queue).take k) (some f) h db h' := by
  induction queue generalizing left h db with
  | nil =>
    refine .inl ⟨h, db, fun k _ => Nat.zero_le k, ?_, hc, ⟨SameObjects.refl h, fun _ hr => hr, ?_, ?_, ?_, ?_⟩, ?_⟩
    · unfold saveObjects
      cases left <;> rfl
    · exact fun r hr => absurd hr List.not_mem_nil
    · exact fun r hr => absurd hr (Option.not_mem_none r)
    · exact fun r _ _ _ => rfl
    · exact fun _ r hr => absurd hr (Option.not_mem_none r)
    · exact fun r => ⟨.inr, fun hr => hr.resolve_left List.not_mem_nil⟩
  | cons tgt queue ih =>
    rw [List.map_cons, List.nodup_cons] at hnodup
    have hne : ∀ r ∈ rowTargets h queue, (h r).table.isSome ∧ r ≠ tgt.1 := by
      intro r hr
      refine ⟨isSome_of_mem_rowTargets hr, ?_⟩
      rintro rfl
      exact hnodup.1 (mem_of_mem_rowTargets hr)
    unfold saveObjects
    rcases hc.saveObject_cases clock (hP tgt List.mem_cons_self) left with
      ⟨h₁, db₁, left₁, hsave, hs, hleft⟩ | ⟨t, ht, rfl, hsave⟩
    · have hc₁ := hs.consistent hc (hP tgt List.mem_cons_self)
      rw [hsave]
      rcases ih left₁ hc₁ (fun q hq => hP q (List.mem_cons_of_mem _ hq)) hnodup.2 with
        ⟨h', db', hlen, hrun, hc', hreached, hsaved⟩ | ⟨k, f, h', rfl, hf, hrun, hreached⟩
      · rw [hs.same.rowTargets_eq] at hlen hrun hreached
        have hreached' := hs.reached hreached hne (fun r hr => absurd hr (Option.not_mem_none r))
        rw [← rowTargets_cons] at hreached'
        refine .inl ⟨h', db', ?_, ?_, hc', hreached', fun r => ?_⟩
        · intro k hk
          rw [rowTargets_cons]
          rcases hleft with ⟨ht, rfl⟩ | ⟨ht, h0, rfl⟩
          · rw [ht]
            exact hlen k hk
          · rw [if_pos ht, List.length_cons]
            subst hk
            have := hlen (k - 1) rfl
            have : k ≠ 0 := fun hk => h0 (congrArg some hk)
            omega
        · show saveObjects clock queue left₁ h₁ db₁ = _
          rw [hrun, rowTargets_cons]
          rcases hleft with ⟨ht, rfl⟩ | ⟨ht, h0, rfl⟩
          · rw [ht]
            rfl
          · rw [if_pos ht, Option.map_map]
            congr 4
            funext k
            show k - 1 - _ = _
            rw [List.length_cons, Nat.sub_sub, Nat.add_comm 1]
        · rw [hsaved, hs.saved_iff, funext hs.same.marks_eq, List.flatMap_cons, List.mem_append]
          tauto
      · rw [hs.same.rowTargets_eq] at hf hreached
        have hreached' := hs.reached hreached (fun r hr => hne r (List.mem_of_mem_take hr))
          (fun r hr => hne r (List.mem_of_getElem? (by rw [hf]; exact hr)))
        rcases hleft with ⟨ht, rfl⟩ | ⟨ht, h0, hk⟩
        · refine .inr ⟨k, f, h', rfl, ?_, hrun, ?_⟩
          · rw [rowTargets_cons, ht]
            exact hf
          · rw [rowTargets_cons, ht]
            rw [ht] at hreached'
            exact hreached'
        · obtain ⟨k', rfl, rfl⟩ := Option.map_eq_some_iff.mp hk.symm
          obtain ⟨k, rfl⟩ := Nat.exists_eq_succ_of_ne_zero (fun hk => h0 (congrArg some hk))
          refine .inr ⟨k + 1, f, h', rfl, ?_, hrun, ?_⟩
          · rw [rowTargets_cons, if_pos ht]
            exact hf
          · rw [rowTargets_cons, if_pos ht, List.take_succ_cons]
            rw [if_pos ht] at hreached'
            exact hreached'
    · have hsome : (h tgt.1).table.isSome := by rw [ht]; rfl
      rw [hsave]
      refine .inr ⟨0, tgt.1, _, rfl, by rw [rowTargets_cons, if_pos hsome]; rfl, rfl, ?_⟩
      cases hassign : db.assignId t (h tgt.1).id with
      | mk i db₁ =>
        refine ⟨sameObjects_update rfl rfl rfl rfl fun _ => rfl, fun r hr => ?_, fun r hr => absurd hr List.not_mem_nil,
          fun r hr => ?_, fun r _ hr _ => ?_, fun _ r hr hid t' ht' => ?_⟩
        · by_cases hr' : r = tgt.1
          · subst hr'
            rw [stamp, Function.update_self]
            exact hr
          · rw [stamp, Function.update_of_ne hr']
            exact hr
        · cases hr
          exact ⟨i, Consistent.newId ht hassign, by rw [stamp, Function.update_self]⟩
        · rw [stamp, Function.update_of_ne fun (heq : r = tgt.1) => hr (by rw [heq]; rfl)]
        · cases hr
          obtain rfl : t = t' := Option.some.inj (ht.symm.trans ht')
          rw [hid] at hassign
          cases hassign
          rw [stamp, Function.update_self]

omit [DecidableEq Ref] [DecidableEq Table] in
theorem SameObjects.handled_eq (hh : SameObjects h h') (left : Option ℕ) (queue : List (Ref × Targets Ref)) :
    handled h' left queue = handled h left queue := by
  induction queue generalizing left with
  | nil => rfl
  | cons tgt queue ih => simp only [handled, hh.table_eq, ih]

theorem Consistent.saved_saveObjects {queue : List (Ref × Targets Ref)} (left : Option ℕ) (hc : Consistent P h db)
    (hP : ∀ tgt ∈ queue, P tgt.1) (r : Ref) : ((saveObjects clock queue left h db).1 r).saved = true ↔
      r ∈ (handled h left queue).flatMap (marks h) ∨ (h r).saved = true := by
  induction queue generalizing left h db with
  | nil => exact ⟨.inr, fun hr => hr.resolve_left List.not_mem_nil⟩
  | cons tgt queue ih =>
    unfold saveObjects
    rcases hc.saveObject_cases clock (hP tgt List.mem_cons_self) left with
      ⟨h₁, db₁, left₁, hsave, hs, hleft⟩ | ⟨t, ht, rfl, hsave⟩
    · have hc₁ := hs.consistent hc (hP tgt List.mem_cons_self)
      have hrest := ih left₁ hc₁ fun q hq => hP q (List.mem_cons_of_mem _ hq)
      have hhandled : handled h left (tgt :: queue) = tgt :: handled h left₁ queue := by
        rw [handled]
        rcases hleft with ⟨ht, rfl⟩ | ⟨ht, h0, rfl⟩
        · rw [if_pos (Option.isNone_iff_eq_none.mpr ht)]
        · rw [if_neg (by simpa [Option.isSome_iff_ne_none] using ht), if_neg h0]
      rw [hsave, hrest, hs.saved_iff, hs.same.handled_eq, funext hs.same.marks_eq, hhandled, List.flatMap_cons,
        List.mem_append]
      tauto
    · rw [hsave, handled, if_neg (by rw [ht]; exact Bool.false_ne_true), if_pos rfl]
      have hstamp : ((stamp (clock tgt.1) (db.assignId t (h tgt.1).id).1 tgt.1 h) r).saved = (h r).saved := by
        unfold stamp
        by_cases hr : r = tgt.1
        · subst hr
          rw [Function.update_self]
        · rw [Function.update_of_ne hr]
      rw [hstamp]
      exact ⟨.inr, fun hr => hr.resolve_left List.not_mem_nil⟩

end Run

/-! ### Ids that are given twice -/

section Conflict

variable [DecidableEq Table] {h h' h₁ : Heap Ref Table Key Value} {db db' db₁ : Database Table Value}
  {tgt : Ref × Targets Ref} {clock : Ref → ℕ} {left left₁ left' : Option ℕ} {t : Table} {f g : Ref}

/-- What a save that does not fail leaves, also when the state was not consistent. -/
structure Wrote (tgt : Ref × Targets Ref) (h : Heap Ref Table Key Value) (db : Database Table Value)
    (h₁ : Heap Ref Table Key Value) (db₁ : Database Table Value) : Prop where
  same : SameObjects h h₁
  saved_iff : ∀ r, (h₁ r).saved = true ↔ r ∈ marks h tgt ∨ (h r).saved = true
  other : ∀ r, r ≠ tgt.1 → (h r).table.isSome → h₁ r = h r
  rows : ∀ t i, (db.rows t i).isSome → (db₁.rows t i).isSome
  nextId : ∀ t, ((h tgt.1).table = some t → (h tgt.1).id ≠ none) → db₁.nextId t = db.nextId t
  fresh : ∀ t i db', (h tgt.1).table = some t → (h tgt.1).loaded = false → db.assignId t (h tgt.1).id = (i, db') →
    db.rows t i = none ∧ (db₁.rows t i).isSome

theorem Database.nextId_assignId_of_ne {db db' : Database Table Value} {t t' : Table} {i : ℕ} {id : Option ℕ}
    (hassign : db.assignId t id = (i, db')) (hne : t' = t → id ≠ none) : db'.nextId t' = db.nextId t' := by
  unfold Database.assignId at hassign
  cases id with
  | some j => cases hassign; rfl
  | none =>
    cases hassign
    exact Function.update_of_ne (fun heq => hne heq rfl) _ _

theorem Database.write_some {db db' : Database Table Value} {create : Bool} {t : Table} {i : ℕ} {row : Row Value}
    (hwrite : db.write create t i row = some db') : db'.nextId = db.nextId ∧
      (∀ t' j, (db.rows t' j).isSome → (db'.rows t' j).isSome) ∧
      (create = true → db.rows t i = none ∧ (db'.rows t i).isSome) := by
  have hset : (db.setRow t i row).nextId = db.nextId ∧
      (∀ t' j, (db.rows t' j).isSome → ((db.setRow t i row).rows t' j).isSome) ∧
      ((db.setRow t i row).rows t i).isSome := by
    refine ⟨rfl, fun t' j hj => ?_, by rw [Database.rows_setRow, if_pos ⟨rfl, rfl⟩]; rfl⟩
    rw [Database.rows_setRow]
    split_ifs
    · rfl
    · exact hj
  unfold Database.write at hwrite
  cases create with
  | true =>
    cases hrow : db.rows t i with
    | some row' =>
      simp [hrow] at hwrite
    | none =>
      simp only [hrow, if_true, Option.isSome_none, Bool.false_eq_true, if_false, Option.some.injEq] at hwrite
      subst hwrite
      exact ⟨hset.1, hset.2.1, fun _ => ⟨rfl, hset.2.2⟩⟩
  | false =>
    simp only [Bool.false_eq_true, if_false] at hwrite
    split_ifs at hwrite
    · cases hwrite
      exact ⟨hset.1, hset.2.1, fun hcreate => by cases hcreate⟩
    · cases hwrite
      exact ⟨rfl, fun _ _ hj => hj, fun hcreate => by cases hcreate⟩

variable [DecidableEq Ref]

theorem wrote_of_saveObject (hsave : saveObject clock tgt left h db = (h₁, some (left₁, db₁))) :
    Wrote tgt h db h₁ db₁ := by
  unfold saveObject at hsave
  cases ht : (h tgt.1).table with
  | none =>
    rw [ht] at hsave
    cases hsave
    obtain ⟨hsame, hsaved, hother⟩ := markSaved_update tgt (h := h)
      (o := { h tgt.1 with generationTs := clock tgt.1 }) rfl (sameObjects_update rfl rfl rfl rfl fun _ => rfl)
    exact ⟨hsame, hsaved, hother, fun _ _ hrow => hrow, fun _ _ => rfl, fun t i db' ht' => by rw [ht] at ht'; cases ht'⟩
  | some t =>
    rw [ht] at hsave
    cases hassign : db.assignId t (h tgt.1).id with
    | mk i db' =>
      simp only [hassign] at hsave
      split_ifs at hsave with hleft
      · cases hsave
      cases hwrite : db'.write (!(h tgt.1).loaded) t i (stamp (clock tgt.1) i tgt.1 h tgt.1).row with
      | none =>
        rw [hwrite] at hsave
        cases hsave
      | some db'' =>
        rw [hwrite] at hsave
        obtain ⟨hnext, hrows, hcreate⟩ := Database.write_some hwrite
        obtain ⟨rfl, hrest⟩ := Prod.mk.inj hsave
        cases hrest
        obtain ⟨hsame, hsaved, hother⟩ := markSaved_update tgt (h := h)
          (o := { h tgt.1 with generationTs := clock tgt.1, id := some i, objectId := some i }) rfl
          (sameObjects_update rfl rfl rfl rfl fun hnone => by rw [ht] at hnone; cases hnone)
        have hheap : markSaved tgt (Function.update (stamp (clock tgt.1) i tgt.1 h) tgt.1
            { stamp (clock tgt.1) i tgt.1 h tgt.1 with objectId := some i }) =
            markSaved tgt (Function.update h tgt.1
              { h tgt.1 with generationTs := clock tgt.1, id := some i, objectId := some i }) := by
          simp only [stamp, Function.update_self, Function.update_idem]
        rw [hheap]
        refine ⟨hsame, hsaved, hother, fun t' j hj => hrows t' j (by rw [Database.rows_assignId hassign]; exact hj),
          fun t' hid => ?_, fun t' j db₂ ht' hloaded hassign' => ?_⟩
        · rw [hnext]
          exact Database.nextId_assignId_of_ne hassign fun heq => hid (heq ▸ ht)
        · obtain rfl : t = t' := Option.some.inj (ht.symm.trans ht')
          rw [hassign] at hassign'
          cases hassign'
          rw [← Database.rows_assignId hassign]
          exact hcreate (by rw [hloaded]; rfl)

theorem wrote_of_saveObjects {queue : List (Ref × Targets Ref)}
    (hrun : saveObjects clock queue left h db = (h', some (left', db'))) :
    SameObjects h h' ∧ ∀ r, (h' r).saved = true ↔ r ∈ queue.flatMap (marks h) ∨ (h r).saved = true := by
  induction queue generalizing left h db with
  | nil =>
    cases hrun
    exact ⟨SameObjects.refl _, fun r => ⟨.inr, fun hr => hr.resolve_left List.not_mem_nil⟩⟩
  | cons tgt queue ih =>
    unfold saveObjects at hrun
    cases hsave : saveObject clock tgt left h db with
    | mk h₁ res =>
      rw [hsave] at hrun
      cases res with
      | none => cases hrun
      | some res =>
        have hwrote := wrote_of_saveObject hsave
        obtain ⟨hsame, hsaved⟩ := ih hrun
        refine ⟨hwrote.same.trans hsame, fun r => ?_⟩
        rw [hsaved, hwrote.saved_iff, funext hwrote.same.marks_eq, List.flatMap_cons, List.mem_append]
        tauto

theorem exists_saveObject {queue : List (Ref × Targets Ref)}
    (hrun : saveObjects clock (tgt :: queue) left h db = (h', some (left', db'))) :
    ∃ h₁ left₁ db₁, Wrote tgt h db h₁ db₁ ∧ saveObjects clock queue left₁ h₁ db₁ = (h', some (left', db')) := by
  unfold saveObjects at hrun
  cases hsave : saveObject clock tgt left h db with
  | mk h₁ res =>
    rw [hsave] at hrun
    cases res with
    | none => cases hrun
    | some res => exact ⟨h₁, res.1, res.2, wrote_of_saveObject hsave, hrun⟩

/-- A new object whose id has a row cannot be saved. -/
theorem rows_eq_none_of_saveObjects {queue : List (Ref × Targets Ref)} {i : ℕ}
    (hrun : saveObjects clock queue left h db = (h', some (left', db'))) (hf : f ∈ queue.map Prod.fst)
    (ht : (h f).table = some t) (hid : (h f).id = some i) (hloaded : (h f).loaded = false) : db.rows t i = none := by
  induction queue generalizing left h db with
  | nil => cases hf
  | cons tgt queue ih =>
    obtain ⟨h₁, left₁, db₁, hwrote, hrest⟩ := exists_saveObject hrun
    by_cases heq : f = tgt.1
    · subst heq
      exact (hwrote.fresh t i _ ht hloaded (by rw [hid]; rfl)).1
    · have hother := hwrote.other f heq (by rw [ht]; rfl)
      have hmem := (List.mem_cons.mp hf).resolve_left heq
      have hnone := ih hrest hmem (by rw [hother]; exact ht) (by rw [hother]; exact hid) (by rw [hother]; exact hloaded)
      by_contra hrow
      have := hwrote.rows t i (Option.isSome_iff_ne_none.mpr hrow)
      rw [hnone] at this
      cases this

/-- New objects are not loaded. -/
def NewNotLoaded (h : Heap Ref Table Key Value) (queue : List (Ref × Targets Ref)) : Prop :=
  ∀ r ∈ queue.map Prod.fst, (h r).table.isSome → (h r).id = none → (h r).loaded = false

omit [DecidableEq Ref] in
theorem Wrote.newNotLoaded {queue : List (Ref × Targets Ref)} (hwrote : Wrote tgt h db h₁ db₁)
    (hnodup : ((tgt :: queue).map Prod.fst).Nodup) (hnew : NewNotLoaded h (tgt :: queue)) :
    NewNotLoaded h₁ queue := by
  intro r hr ht hid
  rw [List.map_cons, List.nodup_cons] at hnodup
  have hne : r ≠ tgt.1 := fun heq => hnodup.1 (heq ▸ hr)
  rw [hwrote.same.table_eq] at ht
  rw [hwrote.other r hne ht] at hid ⊢
  exact hnew r (List.mem_cons_of_mem _ hr) ht hid

theorem next_row_eq_none {queue : List (Ref × Targets Ref)}
    (hrun : saveObjects clock queue left h db = (h', some (left', db'))) (hnodup : (queue.map Prod.fst).Nodup)
    (hnew : NewNotLoaded h queue) (hg : g ∈ queue.map Prod.fst) (ht : (h g).table = some t) (hid : (h g).id = none) :
    db.rows t (db.nextId t + 1) = none := by
  induction queue generalizing left h db with
  | nil => cases hg
  | cons tgt queue ih =>
    obtain ⟨h₁, left₁, db₁, hwrote, hrest⟩ := exists_saveObject hrun
    by_cases htgt : (h tgt.1).table = some t ∧ (h tgt.1).id = none
    · have hloaded := hnew tgt.1 List.mem_cons_self (by rw [htgt.1]; rfl) htgt.2
      exact (hwrote.fresh t _ _ htgt.1 hloaded (by rw [htgt.2]; rfl)).1
    · have hne : g ≠ tgt.1 := by
        rintro rfl
        exact htgt ⟨ht, hid⟩
      have hother := hwrote.other g hne (by rw [ht]; rfl)
      have hnone := ih hrest hnodup.of_cons (hwrote.newNotLoaded hnodup hnew) ((List.mem_cons.mp hg).resolve_left hne)
        (by rw [hother]; exact ht) (by rw [hother]; exact hid)
      rw [hwrote.nextId t fun hq hn => htgt ⟨hq, hn⟩] at hnone
      by_contra hrow
      have := hwrote.rows t _ (Option.isSome_iff_ne_none.mpr hrow)
      rw [hnone] at this
      cases this

/-- If a new object has got the next id of its table already, it cannot be saved together with another new one. -/
theorem not_saveObjects_of_next_id {queue : List (Ref × Targets Ref)}
    (hrun : saveObjects clock queue left h db = (h', some (left', db'))) (hnodup : (queue.map Prod.fst).Nodup)
    (hnew : NewNotLoaded h queue) (hf : f ∈ queue.map Prod.fst) (hg : g ∈ queue.map Prod.fst)
    (hft : (h f).table = some t) (hfid : (h f).id = some (db.nextId t + 1)) (hfloaded : (h f).loaded = false)
    (hgt : (h g).table = some t) (hgid : (h g).id = none) : False := by
  induction queue generalizing left h db with
  | nil => cases hf
  | cons tgt queue ih =>
    obtain ⟨h₁, left₁, db₁, hwrote, hrest⟩ := exists_saveObject hrun
    have hnew₁ := hwrote.newNotLoaded hnodup hnew
    by_cases heq : f = tgt.1
    · subst heq
      -- Its row is there when the other object asks for the id.
      have hne : g ≠ tgt.1 := by
        rintro rfl
        rw [hgid] at hfid
        cases hfid
      have hother := hwrote.other g hne (by rw [hgt]; rfl)
      obtain ⟨-, hrow⟩ := hwrote.fresh t _ db hft hfloaded (by rw [hfid]; rfl)
      have hnone := next_row_eq_none hrest hnodup.of_cons hnew₁ ((List.mem_cons.mp hg).resolve_left hne)
        (by rw [hother]; exact hgt) (by rw [hother]; exact hgid)
      have hsome : (h tgt.1).id ≠ none := by
        rw [hfid]
        exact Option.some_ne_none _
      rw [hwrote.nextId t fun _ => hsome] at hnone
      rw [hnone] at hrow
      cases hrow
    · have hfother := hwrote.other f heq (by rw [hft]; rfl)
      have hfmem := (List.mem_cons.mp hf).resolve_left heq
      by_cases htgt : (h tgt.1).table = some t ∧ (h tgt.1).id = none
      · -- Another object takes the id first.
        have hloaded := hnew tgt.1 List.mem_cons_self (by rw [htgt.1]; rfl) htgt.2
        obtain ⟨-, hrow⟩ := hwrote.fresh t (db.nextId t + 1) _ htgt.1 hloaded (by rw [htgt.2]; rfl)
        have hnone := rows_eq_none_of_saveObjects hrest hfmem (by rw [hfother]; exact hft)
          (by rw [hfother]; exact hfid) (by rw [hfother]; exact hfloaded)
        rw [hnone] at hrow
        cases hrow
      · have hne : g ≠ tgt.1 := by
          rintro rfl
          exact htgt ⟨hgt, hgid⟩
        have hgother := hwrote.other g hne (by rw [hgt]; rfl)
        have hnext := hwrote.nextId t fun hq hn => htgt ⟨hq, hn⟩
        exact ih hrest hnodup.of_cons hnew₁ hfmem ((List.mem_cons.mp hg).resolve_left hne)
          (by rw [hfother]; exact hft) (by rw [hfother, hnext]; exact hfid) (by rw [hfother]; exact hfloaded)
          (by rw [hgother]; exact hgt) (by rw [hgother]; exact hgid)

end Conflict

/-! ### Collecting the objects -/

section Collect

variable [DecidableEq Table] [DecidableEq Key] {h h' : Heap Ref Table Key Value} {tgt : Ref × Targets Ref}
  {queue : List (Ref × Targets Ref)} {dirty : Bool} {targets : Targets Ref}

theorem queryTargets_sublist : ∀ queue : List (Ref × Targets Ref), List.Sublist (queryTargets h queue) queue
  | [] => List.Sublist.slnil
  | _ :: rest => (List.filter_sublist.trans (queryTargets_sublist rest)).cons_cons _

theorem nodup_queryTargets : ∀ queue : List (Ref × Targets Ref), ((queryTargets h queue).map Prod.fst).Nodup
  | [] => List.nodup_nil
  | tgt :: rest => by
    unfold queryTargets
    rw [List.map_cons, List.nodup_cons]
    constructor
    · intro hmem
      obtain ⟨n, hn, heq⟩ := List.mem_map.mp hmem
      have hne := of_decide_eq_true (List.mem_filter.mp hn).2
      rw [heq] at hne
      exact hne rfl
    · exact (nodup_queryTargets rest).sublist (List.filter_sublist.map _)

end Collect

theorem Targets.collectNested_trans {n m : Ref × Targets Ref} :
    ∀ {T : Targets Ref}, n ∈ T.collectNested → m ∈ n.2.collectNested → m ∈ T.collectNested
  | .cons tgt nested rest, hn, hm => by
    unfold Targets.collectNested at hn ⊢
    rw [List.mem_append, List.mem_cons] at hn ⊢
    rcases hn with hn | rfl | hn
    · exact .inl (Targets.collectNested_trans hn hm)
    · exact .inl hm
    · exact .inr (.inr (Targets.collectNested_trans hn hm))

theorem isSaved_iff {h : Heap Ref Table Key Value} {tgt : Ref × Targets Ref} :
    isSaved h tgt = true ↔ (h tgt.1).saved = true ∧ ∀ n ∈ tgt.2.collectNested, (h n.1).saved = true := by
  unfold isSaved
  rw [Bool.and_eq_true, List.all_eq_true]

/-! ### Both outcomes -/

section Returned

variable [DecidableEq Table] [DecidableEq Key] {h h' : Heap Ref Table Key Value} {db db' : Database Table Value}
  {P : Ref → Prop} {dirty : Bool} {targets : Targets Ref}

theorem covered_of_retryable
    (hsaved : ∀ r, (h' r).saved = true ↔
      r ∈ (queryTargets h (collect dirty targets h)).flatMap (marks h) ∨ (h r).saved = true)
    (hretryable : Retryable targets db (h', some db')) : Covered dirty targets h := by
  intro tgt hmem hunsaved
  refine ((hsaved tgt.1).mp (isSaved_iff.mp (hretryable tgt hmem).1).1).resolve_right fun hs => ?_
  rw [hunsaved] at hs
  cases hs

/-- A call that returns leaves every object clean, but for those that an equal one kept from being saved. -/
theorem retryable_returned (hc : Consistent P h' db')
    (hsaved : ∀ r, (h' r).saved = true ↔
      r ∈ (queryTargets h (collect dirty targets h)).flatMap (marks h) ∨ (h r).saved = true) :
    Retryable targets db (h', some db') ↔ Covered dirty targets h := by
  refine ⟨covered_of_retryable hsaved, fun hcovered => ?_⟩
  have hall : ∀ tgt ∈ targets.collectNested, (h' tgt.1).saved = true := by
    intro tgt hmem
    rw [hsaved]
    cases hs : (h tgt.1).saved with
    | true => exact .inr rfl
    | false => exact .inl (hcovered tgt hmem hs)
  intro tgt hmem
  refine ⟨isSaved_iff.mpr ⟨hall tgt hmem, fun n hn => ?_⟩, fun ht => hc.row_of_saved tgt.1 ht (hall tgt hmem)⟩
  exact hall n (Targets.collectNested_trans hmem hn)

theorem Covered.congr (hsaved : ∀ r, (h' r).saved = (h r).saved) (htable : ∀ r, (h' r).table = (h r).table)
    (hkey : ∀ r, (h' r).eqKey = (h r).eqKey) : Covered dirty targets h' ↔ Covered dirty targets h := by
  have hcollect : collect dirty targets h' = collect dirty targets h := by
    unfold collect isSaved
    simp only [hsaved]
  have hquery : ∀ queue : List (Ref × Targets Ref), queryTargets h' queue = queryTargets h queue := by
    intro queue
    induction queue with
    | nil => rfl
    | cons tgt rest ih => simp only [queryTargets, ih, hkey]
  have htransient : ∀ T : Targets Ref, T.transient h' = T.transient h := by
    intro T
    induction T with
    | nil => rfl
    | cons tgt nested rest ihn ihr => rw [Targets.transient, Targets.transient, htable, ihn, ihr]
  have hmarks : marks h' = marks h := funext fun tgt => by rw [marks, marks, htransient]
  unfold Covered
  simp only [hsaved, hcollect, hquery, hmarks]

end Returned

section Failed

variable {h h' : Heap Ref Table Key Value} {db : Database Table Value} {clock : Ref → ℕ}
  {P : Ref → Prop} {targets : Targets Ref}

theorem id_ne_none_of_rowOf {o : DatabaseObject Table Key Value} (hrow : (db.rowOf o).isSome) : o.id ≠ none := by
  intro hid
  rw [Database.rowOf, hid] at hrow
  cases ht : o.table with
  | none => simp [ht] at hrow
  | some t => simp [ht] at hrow

variable [DecidableEq Ref]

namespace Reached

variable {done : List Ref} {failing : Option Ref}

theorem rowOf_eq (hr : Reached clock done failing h db h') (hc : Consistent P h db) {r : Ref} (hp : P r)
    (ht : (h r).table.isSome) : db.rowOf (h' r) = db.rowOf (h r) := by
  by_cases hdone : r ∈ done
  · obtain ⟨i, hi, heq⟩ := hr.written r hdone
    exact hc.rowOf_eq_of_newId hp hi (hr.same.table_eq r) (by rw [heq]; rfl)
  · by_cases hfailing : r ∈ failing
    · obtain ⟨i, hi, heq⟩ := hr.failed r hfailing
      exact hc.rowOf_eq_of_newId hp hi (hr.same.table_eq r) (by rw [heq])
    · rw [hr.other r hdone hfailing ht]

/-- A call that fails leaves the marks right only if it had nothing to change up to the failing write. -/
theorem retryable_iff (hr : Reached clock done failing h db h') (hc : Consistent (fun _ => True) h db)
    (hdone : ∀ r ∈ done, (h r).table.isSome) (hfailing : ∀ r ∈ failing, (h r).table.isSome) :
    Retryable targets db (h', none) ↔
      (∀ r ∈ done, db.rowOf (h r) = some ⟨(h r).fields, clock r⟩) ∧
      ∀ r ∈ failing, (h r).saved = true → db.rowOf (h r) = some ⟨(h r).fields, clock r⟩ := by
  constructor
  · intro hretryable
    constructor
    · intro r hmem
      obtain ⟨i, -, heq⟩ := hr.written r hmem
      have hrow := (hretryable r (by rw [hr.same.table_eq]; exact hdone r hmem)).2 (by rw [heq]; rfl)
      rw [hr.rowOf_eq hc trivial (hdone r hmem), heq] at hrow
      exact hrow
    · intro r hmem hsaved
      obtain ⟨i, -, heq⟩ := hr.failed r hmem
      have hrow := (hretryable r (by rw [hr.same.table_eq]; exact hfailing r hmem)).2
        (hr.saved_of_saved r hsaved)
      rw [hr.rowOf_eq hc trivial (hfailing r hmem), heq] at hrow
      exact hrow
  · rintro ⟨hwritten, hfailed⟩ r ht
    rw [hr.same.table_eq] at ht
    rw [hr.rowOf_eq hc trivial ht]
    by_cases hmem : r ∈ done
    · obtain ⟨i, -, heq⟩ := hr.written r hmem
      rw [hwritten r hmem, heq]
      exact ⟨fun _ => rfl, fun _ => rfl⟩
    · by_cases hmem' : r ∈ failing
      · obtain ⟨i, -, heq⟩ := hr.failed r hmem'
        rw [heq]
        exact ⟨(hc.loaded_iff r ht).mp, hfailed r hmem'⟩
      · rw [hr.other r hmem hmem' ht]
        exact ⟨(hc.loaded_iff r ht).mp, hc.row_of_saved r ht⟩

theorem id_cases (hr : Reached clock done failing h db h') (hc : Consistent (fun _ => True) h db)
    (hmarks : Retryable targets db (h', none)) {r : Ref} (ht : (h r).table.isSome) :
    (h' r).id = (h r).id ∨ r ∈ failing ∧ (h r).id = none ∧
      ∃ i, (h' r).id = some i ∧ ∀ t, (h r).table = some t → db.nextId t < i := by
  by_cases hmem : r ∈ done
  · obtain ⟨i, hi, heq⟩ := hr.written r hmem
    have hrow := (hmarks r (by rw [hr.same.table_eq]; exact ht)).1 (by rw [heq]; rfl)
    rw [hr.rowOf_eq hc trivial ht] at hrow
    exact .inl (by rw [heq, hi.id_eq hrow]; rfl)
  · by_cases hmem' : r ∈ failing
    · obtain ⟨i, hi, heq⟩ := hr.failed r hmem'
      rcases hi with hid | ⟨hid, hlt⟩
      · exact .inl (by rw [heq, hid])
      · exact .inr ⟨hmem', hid, i, by rw [heq], hlt⟩
    · exact .inl (by rw [hr.other r hmem hmem' ht])

theorem objectId_eq (hr : Reached clock done failing h db h') (hc : Consistent (fun _ => True) h db)
    (hmarks : Retryable targets db (h', none)) (r : Ref) : (h' r).objectId = (h r).objectId := by
  cases ht : (h r).table with
  | none => exact (hr.same r).2.2.2.2 ht
  | some t =>
    have ht' : (h r).table.isSome := by rw [ht]; rfl
    by_cases hmem : r ∈ done
    · obtain ⟨i, hi, heq⟩ := hr.written r hmem
      have hrow := (hmarks r (by rw [hr.same.table_eq]; exact ht')).1 (by rw [heq]; rfl)
      rw [hr.rowOf_eq hc trivial ht'] at hrow
      rw [heq, hc.objectId_of_loaded r ht' ((hc.loaded_iff r ht').mpr hrow), hi.id_eq hrow]
      rfl
    · by_cases hmem' : r ∈ failing
      · obtain ⟨i, hi, heq⟩ := hr.failed r hmem'
        rw [heq]
      · rw [hr.other r hmem hmem' ht']

theorem loaded_iff (hr : Reached clock done failing h db h') (hc : Consistent (fun _ => True) h db)
    (hmarks : Retryable targets db (h', none)) {r : Ref} (ht : (h r).table.isSome) :
    (h' r).loaded = true ↔ (db.rowOf (h r)).isSome := by
  constructor
  · intro hloaded
    have hrow := (hmarks r (by rw [hr.same.table_eq]; exact ht)).1 hloaded
    rwa [hr.rowOf_eq hc trivial ht] at hrow
  · intro hrow
    have hloaded := (hc.loaded_iff r ht).mpr hrow
    by_cases hmem : r ∈ done
    · obtain ⟨i, hi, heq⟩ := hr.written r hmem
      rw [heq]
      rfl
    · by_cases hmem' : r ∈ failing
      · obtain ⟨i, hi, heq⟩ := hr.failed r hmem'
        rw [heq]
        exact hloaded
      · rw [hr.other r hmem hmem' ht]
        exact hloaded

/-- After a failed call whose marks are right the state is consistent again, but for the id that the
object whose write failed got from a counter that went back. -/
theorem consistent (hr : Reached clock done failing h db h') (hc : Consistent (fun _ => True) h db)
    (hmarks : Retryable targets db (h', none))
    (hnew : ∀ f ∈ failing, (h f).id = none → ∀ r, P r → r ≠ f → (h r).table = (h f).table → (h r).id ≠ none) :
    Consistent P h' db where
  loaded_iff r ht := by
    rw [hr.same.table_eq] at ht
    rw [hr.rowOf_eq hc trivial ht]
    exact hr.loaded_iff hc hmarks ht
  row_of_saved r ht hsaved := (hmarks r ht).2 hsaved
  objectId_of_loaded r ht hloaded := by
    have hrow := (hmarks r ht).1 hloaded
    rw [hr.same.table_eq] at ht
    rw [hr.rowOf_eq hc trivial ht] at hrow
    rw [hr.objectId_eq hc hmarks, hc.objectId_of_loaded r ht ((hc.loaded_iff r ht).mpr hrow)]
    rcases hr.id_cases hc hmarks ht with hid | ⟨-, hid, -⟩
    · exact hid.symm
    · unfold Database.rowOf at hrow
      rw [hid] at hrow
      cases htable : (h r).table <;> rw [htable] at hrow <;> cases hrow
  id_inj := by
    have hold : ∀ r r' t i, (h r).table = some t → (h r').table = some t → (h' r).id = some i →
        (h' r').id = some i → (h' r).id = (h r).id → r = r' := by
      intro r r' t i ht ht' hid hid' hsame
      rw [hsame] at hid
      rcases hr.id_cases hc hmarks (r := r') (by rw [ht']; rfl) with hsame' | ⟨-, hid₀, j, hj, hlt⟩
      · exact hc.id_inj r r' t i ht ht' hid (hsame' ▸ hid')
      · rw [hid'] at hj
        cases hj
        have hle := hc.id_le r' t trivial ht' hid₀ r i ht hid
        exact absurd (hlt t ht') (Nat.not_lt.mpr hle)
    intro r r' t i ht ht' hid hid'
    rw [hr.same.table_eq] at ht ht'
    rcases hr.id_cases hc hmarks (r := r) (by rw [ht]; rfl) with hsame | ⟨hmem, -⟩
    · exact hold r r' t i ht ht' hid hid' hsame
    · rcases hr.id_cases hc hmarks (r := r') (by rw [ht']; rfl) with hsame' | ⟨hmem', -⟩
      · exact (hold r' r t i ht' ht hid' hid hsame').symm
      · exact Option.mem_unique hmem hmem'
  row_le r t hp ht hid := by
    rw [hr.same.table_eq] at ht
    rcases hr.id_cases hc hmarks (r := r) (by rw [ht]; rfl) with hsame | ⟨-, -, i, hi, -⟩
    · exact hc.row_le r t trivial ht (hsame ▸ hid)
    · rw [hid] at hi
      cases hi
  id_le r t hp ht hid r' i ht' hid' := by
    rw [hr.same.table_eq] at ht ht'
    have hid₀ : (h r).id = none := by
      rcases hr.id_cases hc hmarks (r := r) (by rw [ht]; rfl) with hsame | ⟨-, hid₀, -⟩
      · exact hsame ▸ hid
      · exact hid₀
    rcases hr.id_cases hc hmarks (r := r') (by rw [ht']; rfl) with hsame' | ⟨hmem', hid₀', -⟩
    · exact hc.id_le r t trivial ht hid₀ r' i ht' (hsame' ▸ hid')
    · have hne : r ≠ r' := by
        rintro rfl
        rw [hid] at hid'
        cases hid'
      exact absurd hid₀ (hnew r' hmem' hid₀' r hp hne (ht.trans ht'.symm))

omit [DecidableEq Ref] in
theorem collect_subset (hr : Reached clock done failing h db h') {dirty : Bool} {tgt : Ref × Targets Ref}
    (hmem : tgt ∈ collect dirty targets h') : tgt ∈ collect dirty targets h := by
  obtain ⟨hmem, hdirty⟩ := List.mem_filter.mp hmem
  refine List.mem_filter.mpr ⟨hmem, ?_⟩
  cases dirty with
  | false => rfl
  | true =>
    cases hs : isSaved h tgt with
    | false => rfl
    | true =>
      obtain ⟨hself, hnested⟩ := isSaved_iff.mp hs
      have hs' := isSaved_iff.mpr ⟨hr.saved_of_saved _ hself, fun n hn => hr.saved_of_saved _ (hnested n hn)⟩
      rw [hs'] at hdirty
      cases hdirty

end Reached

end Failed

section Outcome

variable [DecidableEq Ref] [DecidableEq Table] [DecidableEq Key] {h h' : Heap Ref Table Key Value}
  {db db' : Database Table Value} {clock : Ref → ℕ} {P : Ref → Prop} {dirty : Bool} {targets : Targets Ref}
  {failAt : Option ℕ} {owned k : ℕ}

variable (clock failAt owned) in
theorem saveAll_of_not_fails (hc : Consistent P h db) (hP : ∀ tgt ∈ collect dirty targets h, P tgt.1)
    (hvalid : ∀ tgt ∈ collect dirty targets h, (h tgt.1).valid = true)
    (hfails : ∀ k, ¬ Fails failAt owned dirty targets h k) :
    ∃ h' db', saveAll clock failAt owned dirty targets h db = (h', some db') ∧ Consistent P h' db' ∧
      SameObjects h h' ∧ ∀ r, (h' r).saved = true ↔
        r ∈ (queryTargets h (collect dirty targets h)).flatMap (marks h) ∨ (h r).saved = true := by
  have hsub := queryTargets_sublist (h := h) (collect dirty targets h)
  unfold saveAll
  rw [if_pos (List.all_eq_true.mpr hvalid)]
  rcases hc.saveObjects_cases clock failAt (fun tgt hmem => hP tgt (hsub.subset hmem))
    (nodup_queryTargets _) with ⟨h', db', hlen, hrun, hc', hreached, hsaved⟩ | ⟨k, f, h', hk, hf, -⟩
  · rw [hrun]
    have hany : ¬ ((failAt.map (· - (writes dirty targets h).length)).any (· < owned)) = true := by
      intro hany
      cases hk : failAt with
      | none => rw [hk] at hany; cases hany
      | some k =>
        rw [hk, Option.map_some, Option.any_some, decide_eq_true_eq] at hany
        have := hlen k hk
        refine hfails k ⟨hk, ?_⟩
        unfold writes at hany ⊢
        omega
    exact ⟨h', db', if_neg hany, hc', hreached.same, hsaved⟩
  · refine absurd ⟨hk, ?_⟩ (hfails k)
    have := (List.getElem?_eq_some_iff.mp hf).1
    unfold writes
    omega

variable (clock) in
theorem saveAll_of_fails (hc : Consistent P h db) (hP : ∀ tgt ∈ collect dirty targets h, P tgt.1)
    (hvalid : ∀ tgt ∈ collect dirty targets h, (h tgt.1).valid = true) (hfails : Fails failAt owned dirty targets h k) :
    ∃ h', saveAll clock failAt owned dirty targets h db = (h', none) ∧
      Reached clock ((writes dirty targets h).take k) ((writes dirty targets h)[k]?) h db h' ∧
      ∀ r, (h' r).saved = (markHandled dirty targets k h r).saved := by
  obtain ⟨rfl, hlt⟩ := hfails
  have hsub := queryTargets_sublist (h := h) (collect dirty targets h)
  have hmarked : ∀ r, ((saveObjects clock (queryTargets h (collect dirty targets h)) (some k) h db).1 r).saved =
      (markHandled dirty targets k h r).saved := by
    intro r
    rw [Bool.eq_iff_iff, hc.saved_saveObjects (some k) (fun tgt hmem => hP tgt (hsub.subset hmem)), markHandled,
      Bool.or_eq_true, decide_eq_true_eq]
    exact or_comm
  unfold saveAll
  rw [if_pos (List.all_eq_true.mpr hvalid)]
  rcases hc.saveObjects_cases clock (some k) (fun tgt hmem => hP tgt (hsub.subset hmem))
    (nodup_queryTargets _) with ⟨h', db', hlen, hrun, -, hreached, -⟩ | ⟨k', f, h', hk, hf, hrun, hreached⟩
  · have hle : (writes dirty targets h).length ≤ k := hlen k rfl
    have hany : (((some k).map (· - (writes dirty targets h).length)).any (· < owned)) = true := by
      rw [Option.map_some, Option.any_some, decide_eq_true_eq]
      omega
    rw [hrun] at hmarked ⊢
    refine ⟨h', if_pos hany, ?_, hmarked⟩
    rw [List.take_of_length_le hle, List.getElem?_eq_none hle]
    exact hreached
  · cases hk
    rw [hrun] at hmarked ⊢
    refine ⟨h', rfl, ?_, hmarked⟩
    unfold writes
    rw [hf]
    exact hreached

omit [DecidableEq Ref] in
theorem isSome_of_mem_writes {r : Ref} (hr : r ∈ writes dirty targets h) : (h r).table.isSome :=
  isSome_of_mem_rowTargets hr

/-- An unsaved object with a row of its own is covered only if it is saved itself. -/
theorem Covered.mem_queue (hcovered : Covered dirty targets h) {tgt : Ref × Targets Ref}
    (hmem : tgt ∈ targets.collectNested) (hunsaved : (h tgt.1).saved = false) (ht : (h tgt.1).table.isSome) :
    tgt.1 ∈ (queryTargets h (collect dirty targets h)).map Prod.fst := by
  obtain ⟨n, hn, hmarks⟩ := List.mem_flatMap.mp (hcovered tgt hmem hunsaved)
  by_contra hnot
  refine not_mem_marks ht (fun heq => hnot ?_) hmarks
  rw [heq]
  exact List.mem_map_of_mem hn

omit [DecidableEq Ref] in
theorem exists_of_mem_writes {r : Ref} (hr : r ∈ writes dirty targets h) :
    ∃ tgt ∈ targets.collectNested, tgt.1 = r := by
  obtain ⟨tgt, hmem, rfl⟩ := List.mem_map.mp (mem_of_mem_rowTargets hr)
  exact ⟨tgt, List.mem_of_mem_filter ((queryTargets_sublist _).subset hmem), rfl⟩

theorem exists_saveObjects_of_saveAll {h'' : Heap Ref Table Key Value} {db'' : Database Table Value}
    (hrun : saveAll clock failAt owned dirty targets h db = (h'', some db'')) :
    ∃ left, saveObjects clock (queryTargets h (collect dirty targets h)) failAt h db = (h'', some (left, db'')) := by
  unfold saveAll at hrun
  split_ifs at hrun
  · cases hs : saveObjects clock (queryTargets h (collect dirty targets h)) failAt h db with
    | mk h₂ res =>
      rw [hs] at hrun
      cases res with
      | none => cases hrun
      | some res =>
        obtain ⟨left, db'⟩ := res
        simp only at hrun
        split_ifs at hrun
        · cases hrun
        · cases hrun
          exact ⟨left, rfl⟩
  · cases hrun

/-- The same call again, after one that failed and left the marks right. -/
def RetryPersists (owned : ℕ) (dirty : Bool) (targets : Targets Ref) (h h' : Heap Ref Table Key Value)
    (db : Database Table Value) : Prop :=
  ∀ clock', ∃ h'' db'', saveAll clock' none owned dirty targets h' db = (h'', some db'') ∧ SameObjects h h'' ∧
    Retryable targets db (h'', some db'')

section Retry

variable (hc : Consistent (fun _ => True) h db)
  (hreached : Reached clock ((writes dirty targets h).take k) ((writes dirty targets h)[k]?) h db h')
  (hmarks : Retryable targets db (h', none)) (hmarked : ∀ r, (h' r).saved = (markHandled dirty targets k h r).saved)
include hc hreached hmarks hmarked

theorem covered_retry_iff : Covered dirty targets h' ↔ Covered dirty targets (markHandled dirty targets k h) := by
  refine Covered.congr hmarked (fun r => hreached.same.table_eq r) fun r => ?_
  unfold DatabaseObject.eqKey
  rw [(hreached.same r).2.1, hreached.same.table_eq, hreached.objectId_eq hc hmarks]
  rfl

/-- The call can be repeated if the failed object shares its id with no other one. -/
theorem retryPersists_of (hvalid : ∀ tgt ∈ collect dirty targets h', (h' tgt.1).valid = true)
    (happart : IdsApart dirty targets h k) (hcovered : Covered dirty targets (markHandled dirty targets k h)) :
    RetryPersists owned dirty targets h h' db := by
  have hc' := hreached.consistent (P := fun r => ∃ tgt ∈ targets.collectNested, tgt.1 = r) hc hmarks (by
    rintro f hf hid r ⟨tgt, hmem, rfl⟩
    exact happart f hf hid tgt hmem)
  intro clock'
  obtain ⟨h'', db'', hrun, hc'', hsame, hsaved⟩ := saveAll_of_not_fails clock' none owned hc'
    (fun tgt hmem => ⟨tgt, List.mem_of_mem_filter hmem, rfl⟩) hvalid (fun k hk => by cases hk.1)
  refine ⟨h'', db'', hrun, hreached.same.trans hsame, (retryable_returned hc'' hsaved).mpr ?_⟩
  exact (covered_retry_iff hc hreached hmarks hmarked).mpr hcovered

/-- A call that is repeated with success covered everything, and shared no id. -/
theorem of_retryPersists (huntouched : Untouched clock dirty targets h db k)
    (hretry : RetryPersists owned dirty targets h h' db) :
    IdsApart dirty targets h k ∧ Covered dirty targets (markHandled dirty targets k h) := by
  obtain ⟨h'', db'', hrun, -, hretryable⟩ := hretry clock
  obtain ⟨left', hobjects⟩ := exists_saveObjects_of_saveAll hrun
  have hcovered' := covered_of_retryable (wrote_of_saveObjects hobjects).2 hretryable
  refine ⟨?_, (covered_retry_iff hc hreached hmarks hmarked).mp hcovered'⟩
  have hunsaved : ∀ r, (h r).table.isSome → (h r).id = none → (h r).saved = false := fun r ht hid =>
    Bool.eq_false_iff.mpr fun hsaved =>
      id_ne_none_of_rowOf (Option.isSome_of_eq_some (hc.row_of_saved r ht hsaved)) hid
  have hdone : ∀ r ∈ (writes dirty targets h).take k, (h r).id ≠ none := fun r hr =>
    id_ne_none_of_rowOf (Option.isSome_of_eq_some (huntouched.1 r hr))
  have hnew : NewNotLoaded h' (queryTargets h' (collect dirty targets h')) := fun r _ ht hid =>
    Bool.eq_false_iff.mpr fun hloaded => id_ne_none_of_rowOf ((hmarks r ht).1 hloaded) hid
  intro f hf hid tgt hmem hne htable hnone
  have hfmem := List.mem_of_getElem? hf
  obtain ⟨ftgt, hftgt, rfl⟩ := exists_of_mem_writes hfmem
  obtain ⟨t, ht⟩ := Option.isSome_iff_exists.mp (isSome_of_mem_writes hfmem)
  have hgt : (h tgt.1).table = some t := htable.trans ht
  -- The two objects that need the same id are both unsaved, so both are written by the second call.
  obtain ⟨i, -, hfailed⟩ := hreached.failed ftgt.1 hf
  have hother : h' tgt.1 = h tgt.1 := by
    refine hreached.other tgt.1 (fun hr => hdone tgt.1 hr hnone) (fun hr => hne ?_) (by rw [hgt]; rfl)
    exact Option.mem_unique hr hf
  have hfsaved : (h' ftgt.1).saved = false := by
    rw [hfailed]
    exact hunsaved ftgt.1 (by rw [ht]; rfl) hid
  have hgsaved : (h' tgt.1).saved = false := by
    rw [hother]
    exact hunsaved tgt.1 (by rw [hgt]; rfl) hnone
  have hft' : (h' ftgt.1).table = some t := (hreached.same.table_eq _).trans ht
  have hfloaded : (h' ftgt.1).loaded = false := by
    rw [hfailed]
    exact Bool.eq_false_iff.mpr fun hloaded =>
      id_ne_none_of_rowOf ((hc.loaded_iff ftgt.1 (by rw [ht]; rfl)).mp hloaded) hid
  exact not_saveObjects_of_next_id hobjects (nodup_queryTargets _) hnew
    (hcovered'.mem_queue hftgt hfsaved (by rw [hft']; rfl))
    (hcovered'.mem_queue hmem hgsaved (by rw [hother, hgt]; rfl)) hft'
    (hreached.failed_id hdone ftgt.1 hf hid t ht) hfloaded (by rw [hother]; exact hgt) (by rw [hother]; exact hnone)

end Retry

/-- What a call promises: the marks of the objects mean what they say afterwards, and if a row write has failed,
the same call persists everything once the cause is fixed. -/
def Recoverable (clock : Ref → ℕ) (failAt : Option ℕ) (owned : ℕ) (dirty : Bool) (targets : Targets Ref)
    (h : Heap Ref Table Key Value) (db : Database Table Value) : Prop :=
  Retryable targets db (saveAll clock failAt owned dirty targets h db) ∧
    ∀ h', saveAll clock failAt owned dirty targets h db = (h', none) →
      (∀ tgt ∈ collect dirty targets h', (h' tgt.1).valid = true) → RetryPersists owned dirty targets h h' db

end Outcome

/-! ### Two changed cells -/

/-- Two cells that were loaded and changed. -/
def changedCells : Heap Bool Unit Empty ℕ := fun r =>
  { table := some (), eqProperties := none, id := some r.toNat, objectId := some r.toNat, fields := 1,
    generationTs := 0, saved := false, loaded := true, valid := true }

def changedCellsRows : Database Unit ℕ := ⟨fun _ i => if i ≤ 1 then some ⟨0, 0⟩ else none, fun _ => 1⟩

def changedCellsTargets : Targets Bool := .cons false .nil (.cons true .nil .nil)

theorem changedCells_consistent : Consistent (fun _ => True) changedCells changedCellsRows where
  loaded_iff r _ := by cases r <;> decide
  row_of_saved r _ hsaved := by cases hsaved
  objectId_of_loaded r _ _ := rfl
  id_inj r r' t i _ _ hid hid' := by
    cases hid
    have heq : r'.toNat = r.toNat := Option.some.inj hid'
    revert heq
    cases r <;> cases r' <;> decide
  row_le r t _ _ hid := by cases hid
  id_le r t _ _ hid := by cases hid

end Uno
