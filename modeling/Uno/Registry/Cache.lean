import Uno.Registry.Delete
import Uno.Lib.Dict
import Uno.Lib.Run

/-!
# The cache of objects

`Database.load` keeps the objects it makes in a map from tables to maps from ids, and makes no object twice.
`Database.delete` takes the ids it deletes for keys of the outer map, and so it leaves the deleted objects there; so do
the other deletions of rows. Two classes may share a table, and then a row that was loaded as an object of one of them
is never one of the other. Otherwise loading follows the rows (`cache_coherent`).
-/

namespace Uno

/-- The classes of the objects that are cached. -/
structure DbClasses (Class Table Value : Type) where
  /-- `DB_TABLE`. -/
  table : Class → Table
  /-- `DB_TABLE_KEYS`, if it has some: a row has the same values as the one that is written, for one of the keys. -/
  sameKeys : Class → Option (Row (Columns Table Value) → Row (Columns Table Value) → Bool)
  /-- `DB_OWNER`. -/
  ownerTypes : Table → List Table

/-- An object in memory; two loads yield the same object if they yield the same reference. -/
structure Instance (Class : Type) where
  ref : ℕ
  cls : Class
  id : ℕ
  deriving DecidableEq

/-- A database with its cache. -/
structure CachedDatabase (Class Table Value : Type) where
  db : Database Table (Columns Table Value)
  /-- `_cache`: its keys are meant to be tables only. -/
  cache : Dict (Table ⊕ ℕ) (Dict ℕ (Instance Class))
  /-- The number of objects made so far. -/
  made : ℕ

/-- `delete_where`. -/
def Database.deleteWhere {Table Value : Type} [DecidableEq Table] (db : Database Table Value) (t : Table)
    (selects : Row Value → Bool) : Database Table Value :=
  { db with rows := Function.update db.rows t fun i => (db.rows t i).filter fun row => !selects row }

namespace CachedDatabase

variable {Class Ref Table Key Value : Type} [DecidableEq Table]

/-! ### Loading -/

/-- The object in the cache of a table. -/
def cached (s : CachedDatabase Class Table Value) (t : Table) (i : ℕ) : Option (Instance Class) :=
  (s.cache.get? (.inl t)).bind fun objects => objects.get? i

/-- `self._cache[table] = self._cache.get(table, {})`. -/
def openCache (s : CachedDatabase Class Table Value) (t : Table) : CachedDatabase Class Table Value :=
  { s with cache := s.cache.set (.inl t) ((s.cache.get? (.inl t)).getD ∅) }

/-- `cache[loaded_id] = loaded`, unless the id is zero. -/
def store (s : CachedDatabase Class Table Value) (t : Table) (o : Instance Class) : CachedDatabase Class Table Value :=
  if o.id = 0 then s
  else { s with cache := s.cache.set (.inl t) (((s.cache.get? (.inl t)).getD ∅).set o.id o) }

variable (M : DbClasses Class Table Value)

/-- `deserialize` of a row. What making an object loads in turn counts as loads of their own. -/
def deserialize (s : CachedDatabase Class Table Value) (c : Class) (i : ℕ) :
    Instance Class × CachedDatabase Class Table Value :=
  match (s.openCache (M.table c)).cached (M.table c) i with
  -- whatever its class is
  | some o => (o, s.openCache (M.table c))
  | none => (⟨s.made, c, i⟩, { (s.openCache (M.table c)).store (M.table c) ⟨s.made, c, i⟩ with made := s.made + 1 })

/-- `load` of a class by id. -/
def load (s : CachedDatabase Class Table Value) (useCache : Bool) (c : Class) (i : ℕ) :
    Option (Instance Class) × CachedDatabase Class Table Value :=
  let s := s.openCache (M.table c)
  match (if useCache then s.cached (M.table c) i else none) with
  | some o => (some o, s)
  | none =>
    if (s.db.rows (M.table c) i).isSome then
      let (o, s) := s.deserialize M c i
      (some o, s)
    else (none, s)

/-- `load` of a class by a query that selects the rows with some ids. -/
def query (s : CachedDatabase Class Table Value) (c : Class) (ids : List ℕ) : CachedDatabase Class Table Value :=
  (ids.filter fun i => (s.db.rows (M.table c) i).isSome).foldl (fun s i => (s.deserialize M c i).2)
    (s.openCache (M.table c))

/-! ### Creating, saving and deleting -/

/-- `new`, and its save: the new object has no id when it is made, so that it does not get into the cache. -/
def new (s : CachedDatabase Class Table Value) (c : Class) (row : Row (Columns Table Value)) :
    Result (CachedDatabase Class Table Value) :=
  let (i, db) := s.db.assignId (M.table c) none
  match db.write true (M.table c) i row with
  | none => .error .integrity
  | some db => .ok { s.openCache (M.table c) with db := db, made := s.made + 1 }

/-- `save` of an object that was loaded. -/
def save (s : CachedDatabase Class Table Value) (c : Class) (i : ℕ) (row : Row (Columns Table Value)) :
    Result (CachedDatabase Class Table Value) :=
  match s.db.write false (M.table c) i row with
  | none => .error .integrity
  | some db => .ok { s with db := db }

/-- `save` of an object with `import_record=True`: its class tells which rows make place for it. -/
def importRecord (s : CachedDatabase Class Table Value) (c : Class) (id : Option ℕ) (row : Row (Columns Table Value)) :
    Result (CachedDatabase Class Table Value) :=
  let (i, db) := s.db.assignId (M.table c) id
  let written :=
    match M.sameKeys c with
    | some same => (db.deleteWhere (M.table c) fun old => same old row).write true (M.table c) i row
    | none => db.write (db.rows (M.table c) i).isNone (M.table c) i row
  match written with
  | none => .error .integrity
  | some db => .ok { s with db := db }

def deleteWhere (s : CachedDatabase Class Table Value) (t : Table) (selects : Row (Columns Table Value) → Bool) :
    CachedDatabase Class Table Value :=
  { s with db := s.db.deleteWhere t selects }

/-- `delete`, with `self._cache.pop(tgt.id, None)` for each target. -/
def delete [DecidableEq Key] (s : CachedDatabase Class Table Value) (owners : Ref → Option (Table × ℕ))
    (h : Heap Ref Table Key (Columns Table Value)) (obj : Ref × Targets Ref) :
    Result (CachedDatabase Class Table Value) := do
  let db ← Database.delete M.ownerTypes owners h obj s.db
  .ok { s with
    db := db
    cache := (Database.deleteTargets h obj).foldl (fun cache tgt =>
      match (h tgt.1).id with
      | none => cache
      | some i => cache.erase (.inr i)) s.cache }

/-! ### Runs -/

inductive Op (Class Ref Table Key Value : Type) where
  | new (c : Class) (row : Row (Columns Table Value))
  | save (c : Class) (i : ℕ) (row : Row (Columns Table Value))
  | importRecord (c : Class) (id : Option ℕ) (row : Row (Columns Table Value))
  | load (useCache : Bool) (c : Class) (i : ℕ)
  | query (c : Class) (ids : List ℕ)
  | deleteWhere (t : Table) (selects : Row (Columns Table Value) → Bool)
  | delete (owners : Ref → Option (Table × ℕ)) (h : Heap Ref Table Key (Columns Table Value)) (obj : Ref × Targets Ref)

def step [DecidableEq Key] (s : CachedDatabase Class Table Value) :
    Op Class Ref Table Key Value → Result (CachedDatabase Class Table Value)
  | .new c row => s.new M c row
  | .save c i row => s.save M c i row
  | .importRecord c id row => s.importRecord M c id row
  | .load useCache c i => .ok (s.load M useCache c i).2
  | .query c ids => .ok (s.query M c ids)
  | .deleteWhere t selects => .ok (s.deleteWhere t selects)
  | .delete owners h obj => s.delete M owners h obj

/-- The row was not loaded as an object of another class. -/
def LoadsOwn (s : CachedDatabase Class Table Value) (c : Class) (i : ℕ) : Prop :=
  ∀ o, s.cached (M.table c) i = some o → o.cls = c

/-- No row goes whose object was loaded, and none is loaded by id as an object of two classes. Ids start at one. -/
def Op.Ok (s : CachedDatabase Class Table Value) : Op Class Ref Table Key Value → Prop
  | .delete _ h obj => ∀ x, Nested obj x → ∀ t i, (h obj.1).table = some t → (h x.1).id = some i →
      (s.db.rows t i).isSome → s.cached t i = none
  | .deleteWhere t selects => ∀ i row, s.db.rows t i = some row → selects row = true → s.cached t i = none
  | .importRecord c id row => id ≠ some 0 ∧ ∀ same, M.sameKeys c = some same → ∀ i old,
      s.db.rows (M.table c) i = some old → same old row = true → id ≠ some i → s.cached (M.table c) i = none
  | .load _ c i => s.LoadsOwn M c i
  | _ => True

/-- Loading a class by id yields an object of that class if and only if there is a row. -/
def Follows (s : CachedDatabase Class Table Value) : Prop :=
  ∀ useCache c i, s.LoadsOwn M c i → ((s.load M useCache c i).1.isSome ↔ (s.db.rows (M.table c) i).isSome) ∧
    ∀ o, (s.load M useCache c i).1 = some o → o.cls = c ∧ o.id = i

/-! ### What loading keeps -/

section steps
variable {M} {s s' : CachedDatabase Class Table Value} {c : Class} {t t' : Table} {i i' : ℕ} {o : Instance Class}

/-- The objects in the cache have rows; ids start at one. -/
structure Coherent (M : DbClasses Class Table Value) (s : CachedDatabase Class Table Value) : Prop where
  row : ∀ t i o, s.cached t i = some o → (s.db.rows t i).isSome ∧ M.table o.cls = t ∧ o.id = i
  zero : ∀ t, s.db.rows t 0 = none

/-- The objects in the cache stay there. -/
def Extends (s s' : CachedDatabase Class Table Value) : Prop := ∀ t i o, s.cached t i = some o → s'.cached t i = some o

theorem cached_openCache : (s.openCache t).cached t' i = s.cached t' i := by
  unfold cached openCache
  rw [Dict.get?_set]
  split_ifs with ht
  · obtain rfl := Sum.inl.inj ht
    cases hget : s.cache.get? (.inl t) with
    | none => simp
    | some objects => simp
  · rfl

theorem cached_store (ho : o.id ≠ 0) :
    (s.store t o).cached t' i = if t = t' ∧ o.id = i then some o else s.cached t' i := by
  unfold cached store
  rw [if_neg ho]
  by_cases ht : t = t'
  · subst ht
    show (Dict.get? (Dict.set _ _ _) _).bind _ = _
    rw [Dict.get?_set_self, Option.bind_some, Dict.get?_set]
    by_cases hi : o.id = i
    · rw [if_pos hi, if_pos ⟨rfl, hi⟩]
    · rw [if_neg hi, if_neg fun hboth => hi hboth.2]
      cases s.cache.get? (.inl t) <;> rfl
  · rw [if_neg fun hboth => ht hboth.1]
    show (Dict.get? (Dict.set _ _ _) _).bind _ = _
    rw [Dict.get?_set_ne _ _ fun heq => ht (Sum.inl.inj heq)]

theorem Coherent.openCache (h : s.Coherent M) (t : Table) : (s.openCache t).Coherent M :=
  ⟨fun t' i o ho => h.row t' i o (cached_openCache.symm.trans ho), h.zero⟩

theorem extends_openCache (s : CachedDatabase Class Table Value) (t : Table) : s.Extends (s.openCache t) :=
  fun _ _ _ ho => cached_openCache.trans ho

theorem Coherent.deserialize (h : s.Coherent M) (hrow : (s.db.rows (M.table c) i).isSome) :
    (s.deserialize M c i).2.Coherent M ∧ s.Extends (s.deserialize M c i).2 ∧ (s.deserialize M c i).2.db = s.db ∧
      (s.deserialize M c i).2.cached (M.table c) i = some (s.deserialize M c i).1 ∧
      (s.LoadsOwn M c i → (s.deserialize M c i).1.cls = c) := by
  have hpos : i ≠ 0 := by
    rintro rfl
    rw [h.zero] at hrow
    cases hrow
  unfold CachedDatabase.deserialize
  cases hcached : (s.openCache (M.table c)).cached (M.table c) i with
  | some o =>
    exact ⟨h.openCache _, extends_openCache s _, rfl, hcached, fun hown => hown o (cached_openCache.symm.trans hcached)⟩
  | none =>
    have hstore : ∀ t' i', ({ (s.openCache (M.table c)).store (M.table c) ⟨s.made, c, i⟩ with made := s.made + 1 } :
        CachedDatabase Class Table Value).cached t' i' =
          if M.table c = t' ∧ i = i' then some ⟨s.made, c, i⟩ else s.cached t' i' := by
      intro t' i'
      refine (cached_store (o := ⟨s.made, c, i⟩) hpos).trans ?_
      rw [cached_openCache]
    have hdb : ((s.openCache (M.table c)).store (M.table c) ⟨s.made, c, i⟩).db = s.db := by
      unfold store
      rw [if_neg hpos]
      rfl
    have hnone : s.cached (M.table c) i = none := cached_openCache.symm.trans hcached
    refine ⟨⟨fun t' i' o' ho' => ?_, fun t' => ?_⟩, fun t' i' o' ho' => ?_, hdb, ?_, fun _ => rfl⟩
    · rw [hstore] at ho'
      show (((s.openCache (M.table c)).store (M.table c) ⟨s.made, c, i⟩).db.rows t' i').isSome ∧ _
      rw [hdb]
      split_ifs at ho' with heq
      · obtain ⟨rfl, rfl⟩ := heq
        obtain rfl := Option.some.inj ho'
        exact ⟨hrow, rfl, rfl⟩
      · exact h.row t' i' o' ho'
    · show ((s.openCache (M.table c)).store (M.table c) ⟨s.made, c, i⟩).db.rows t' 0 = none
      rw [hdb]
      exact h.zero t'
    · rw [hstore, if_neg, ho']
      rintro ⟨rfl, rfl⟩
      rw [hnone] at ho'
      cases ho'
    · rw [hstore, if_pos ⟨rfl, rfl⟩]

theorem Coherent.load (h : s.Coherent M) (useCache : Bool) (c : Class) (i : ℕ) :
    (s.load M useCache c i).2.Coherent M ∧ s.Extends (s.load M useCache c i).2 ∧
      ((s.load M useCache c i).1.isSome ↔ (s.db.rows (M.table c) i).isSome) ∧
      ∀ o, (s.load M useCache c i).1 = some o →
        (s.load M useCache c i).2.cached (M.table c) i = some o ∧ (s.LoadsOwn M c i → o.cls = c) := by
  have hopen := h.openCache (M.table c)
  have hextends := extends_openCache s (M.table c)
  simp only [CachedDatabase.load]
  split
  · rename_i o hcached
    have ho : s.cached (M.table c) i = some o := by
      split_ifs at hcached
      exact cached_openCache.symm.trans hcached
    refine ⟨hopen, hextends, ?_, fun o' ho' => ?_⟩
    · simp [(h.row _ i o ho).1]
    · obtain rfl := Option.some.inj ho'
      exact ⟨hextends _ i o ho, fun hown => hown o ho⟩
  · by_cases hrow : (s.db.rows (M.table c) i).isSome = true
    · obtain ⟨hcoherent, hext, -, hcached, hcls⟩ := hopen.deserialize hrow
      rw [show ((s.openCache (M.table c)).db.rows (M.table c) i).isSome = true from hrow, if_pos rfl]
      refine ⟨hcoherent, fun t' i' o' ho' => hext t' i' o' (hextends t' i' o' ho'), ?_, fun o' ho' => ?_⟩
      · simp [hrow]
      · obtain rfl := Option.some.inj ho'
        exact ⟨hcached, fun hown => hcls fun o ho => hown o (cached_openCache.symm.trans ho)⟩
    · rw [if_neg (show ¬ ((s.openCache (M.table c)).db.rows (M.table c) i).isSome = true from hrow)]
      refine ⟨hopen, hextends, ?_, fun o' ho' => ?_⟩
      · simp [hrow]
      · cases ho'

theorem Coherent.query (h : s.Coherent M) (c : Class) (ids : List ℕ) :
    (s.query M c ids).Coherent M ∧ s.Extends (s.query M c ids) := by
  have hrows : ∀ i ∈ ids.filter fun i => (s.db.rows (M.table c) i).isSome, (s.db.rows (M.table c) i).isSome :=
    fun i hi => (List.mem_filter.mp hi).2
  unfold CachedDatabase.query
  generalize ids.filter (fun i => (s.db.rows (M.table c) i).isSome) = l at hrows
  have hextends := extends_openCache s (M.table c)
  have hdb : (s.openCache (M.table c)).db = s.db := rfl
  have hopen := h.openCache (M.table c)
  generalize s.openCache (M.table c) = s₁ at hextends hdb hopen
  induction l generalizing s₁ with
  | nil => exact ⟨hopen, hextends⟩
  | cons i rest ih =>
    obtain ⟨hcoherent, hext, hdb', -⟩ := hopen.deserialize (hdb ▸ hrows i List.mem_cons_self)
    exact ih (fun j hj => hrows j (List.mem_cons_of_mem _ hj)) _
      (fun t' i' o' ho' => hext t' i' o' (hextends t' i' o' ho')) (hdb'.trans hdb) hcoherent

/-! ### What the other operations keep -/

/-- Rows that are written or stay keep the cache coherent. -/
theorem Coherent.of_rows (h : s.Coherent M) (hcache : ∀ t i, s'.cached t i = s.cached t i)
    (hrows : ∀ t i, s.cached t i ≠ none → (s.db.rows t i).isSome → (s'.db.rows t i).isSome)
    (hzero : ∀ t, s'.db.rows t 0 = none) : s'.Coherent M ∧ s.Extends s' := by
  refine ⟨⟨fun t i o ho => ?_, hzero⟩, fun t i o ho => (hcache t i).trans ho⟩
  rw [hcache] at ho
  obtain ⟨hrow, hcls⟩ := h.row t i o ho
  exact ⟨hrows t i (by simp [ho]) hrow, hcls⟩

theorem rows_setRow (db : Database Table (Columns Table Value)) (row : Row (Columns Table Value)) :
    (db.setRow t i row).rows t' i' = if t = t' ∧ i = i' then some row else db.rows t' i' := by
  show Function.update db.rows t _ t' i' = _
  by_cases ht : t = t'
  · subst ht
    rw [Function.update_self]
    by_cases hi : i = i'
    · subst hi
      rw [Function.update_self, if_pos ⟨rfl, rfl⟩]
    · rw [Function.update_of_ne (Ne.symm hi), if_neg fun hboth => hi hboth.2]
  · rw [Function.update_of_ne (Ne.symm ht), if_neg fun hboth => ht hboth.1]

theorem rows_deleteWhere (db : Database Table (Columns Table Value)) (selects : Row (Columns Table Value) → Bool) :
    (db.deleteWhere t selects).rows t' i = if t = t' then (db.rows t' i).filter fun row => !selects row
      else db.rows t' i := by
  show Function.update db.rows t _ t' i = _
  by_cases ht : t = t'
  · subst ht
    rw [Function.update_self, if_pos rfl]
  · rw [Function.update_of_ne (Ne.symm ht), if_neg ht]

theorem rows_write {db db' : Database Table (Columns Table Value)} {create : Bool} {row : Row (Columns Table Value)}
    (hok : db.write create t i row = some db') :
    (∀ t' i', (db.rows t' i').isSome → (db'.rows t' i').isSome) ∧ (create = true → (db'.rows t i).isSome) ∧
      ∀ t' i', db.rows t' i' = none → (t = t' ∧ i = i' → create = false) → db'.rows t' i' = none := by
  have hset : (∀ t' i', (db.rows t' i').isSome → ((db.setRow t i row).rows t' i').isSome) ∧
      ((db.setRow t i row).rows t i).isSome := by
    refine ⟨fun t' i' hrow => ?_, ?_⟩
    · rw [rows_setRow]
      split_ifs
      · rfl
      · exact hrow
    · rw [rows_setRow, if_pos ⟨rfl, rfl⟩]
      rfl
  unfold Database.write at hok
  split_ifs at hok with hcreate hrow hrow
  · obtain rfl := Option.some.inj hok
    refine ⟨hset.1, fun _ => hset.2, fun t' i' hnone hother => ?_⟩
    rw [rows_setRow, if_neg, hnone]
    intro hboth
    rw [hother hboth] at hcreate
    cases hcreate
  · obtain rfl := Option.some.inj hok
    refine ⟨hset.1, fun h => absurd h hcreate, fun t' i' hnone _ => ?_⟩
    rw [rows_setRow, if_neg, hnone]
    rintro ⟨rfl, rfl⟩
    rw [hnone] at hrow
    cases hrow
  · obtain rfl := Option.some.inj hok
    exact ⟨fun _ _ => id, fun h => absurd h hcreate, fun _ _ hnone _ => hnone⟩

theorem Coherent.new (h : s.Coherent M) {row : Row (Columns Table Value)} (hok : s.new M c row = .ok s') :
    s'.Coherent M ∧ s.Extends s' := by
  unfold CachedDatabase.new at hok
  simp only [Database.assignId] at hok
  split at hok
  · cases hok
  · rename_i db hwrite
    obtain rfl := Except.ok.inj hok
    obtain ⟨hrows, -, hnone⟩ := rows_write hwrite
    exact h.of_rows (fun _ _ => cached_openCache) (fun t' i' _ hrow => hrows t' i' hrow) fun t' =>
      hnone t' 0 (h.zero t') fun hboth => absurd hboth.2 (Nat.succ_ne_zero _)

theorem Coherent.save (h : s.Coherent M) {row : Row (Columns Table Value)} (hok : s.save M c i row = .ok s') :
    s'.Coherent M ∧ s.Extends s' := by
  unfold CachedDatabase.save at hok
  split at hok
  · cases hok
  · rename_i db hwrite
    obtain rfl := Except.ok.inj hok
    obtain ⟨hrows, -, hnone⟩ := rows_write hwrite
    exact h.of_rows (fun _ _ => rfl) (fun t' i' _ hrow => hrows t' i' hrow) fun t' => hnone t' 0 (h.zero t') fun _ => rfl

theorem isSome_deleteWhere {selects : Row (Columns Table Value) → Bool} {db : Database Table (Columns Table Value)}
    (hrow : (db.rows t' i).isSome) (hkept : ∀ row, t = t' → db.rows t' i = some row → selects row = false) :
    ((db.deleteWhere t selects).rows t' i).isSome := by
  rw [rows_deleteWhere]
  split_ifs with ht
  · obtain ⟨row, heq⟩ := Option.isSome_iff_exists.mp hrow
    rw [heq, Option.filter_some, hkept row ht heq]
    rfl
  · exact hrow

theorem rows_deleteWhere_eq_none {selects : Row (Columns Table Value) → Bool}
    {db : Database Table (Columns Table Value)} (hnone : db.rows t' i = none) :
    (db.deleteWhere t selects).rows t' i = none := by
  rw [rows_deleteWhere, hnone]
  split_ifs <;> rfl

variable [DecidableEq Key] {owners : Ref → Option (Table × ℕ)} {h : Heap Ref Table Key (Columns Table Value)}
  {obj : Ref × Targets Ref}

theorem Coherent.deleteWhere (hs : s.Coherent M) {selects : Row (Columns Table Value) → Bool}
    (hok : ∀ i row, s.db.rows t i = some row → selects row = true → s.cached t i = none) :
    (s.deleteWhere t selects).Coherent M ∧ s.Extends (s.deleteWhere t selects) := by
  refine hs.of_rows (fun _ _ => rfl) (fun t' i hcached hrow => ?_) fun t' => rows_deleteWhere_eq_none (hs.zero t')
  refine isSome_deleteWhere hrow fun row ht heq => ?_
  by_contra hselects
  subst ht
  exact hcached (hok i row heq (by simpa using hselects))

theorem Coherent.importRecord (hs : s.Coherent M) {id : Option ℕ} {row : Row (Columns Table Value)}
    (hzero : id ≠ some 0) (hok : ∀ same, M.sameKeys c = some same → ∀ i old, s.db.rows (M.table c) i = some old →
      same old row = true → id ≠ some i → s.cached (M.table c) i = none)
    (himport : s.importRecord M c id row = .ok s') : s'.Coherent M ∧ s.Extends s' := by
  have hid : (s.db.assignId (M.table c) id).1 ≠ 0 := by
    cases id with
    | none => exact Nat.succ_ne_zero _
    | some i => exact fun h => hzero (congrArg some h)
  have hsame : ∀ i, id = some i → (s.db.assignId (M.table c) id).1 = i := by
    rintro i rfl
    rfl
  have hrows₀ : (s.db.assignId (M.table c) id).2.rows = s.db.rows := by cases id <;> rfl
  unfold CachedDatabase.importRecord at himport
  generalize s.db.assignId (M.table c) id = assigned at himport hid hsame hrows₀
  obtain ⟨i, db⟩ := assigned
  have hzero' : ∀ t', db.rows t' 0 = none := fun t' => by rw [hrows₀, hs.zero]
  simp only at himport hid hsame
  cases hkeys : M.sameKeys c with
  | some same =>
    rw [hkeys] at himport
    simp only at himport
    split at himport
    · cases himport
    rename_i db' hwrite
    obtain rfl := Except.ok.inj himport
    obtain ⟨hrows, hadded, hnone⟩ := rows_write hwrite
    refine hs.of_rows (fun _ _ => rfl) (fun t' i' hcached hrow => ?_) fun t' =>
      hnone t' 0 (rows_deleteWhere_eq_none (hzero' t')) fun hboth => absurd hboth.2 hid
    -- the row that is written makes up for one with its id
    by_cases heq : M.table c = t' ∧ i = i'
    · obtain ⟨rfl, rfl⟩ := heq
      exact hadded rfl
    · refine hrows t' i' (isSome_deleteWhere (hrows₀ ▸ hrow) fun old ht hold => ?_)
      by_contra hreplaced
      subst ht
      refine hcached (hok same hkeys i' old (hrows₀ ▸ hold) (by simpa using hreplaced) fun hid' => ?_)
      exact heq ⟨rfl, hsame i' hid'⟩
  | none =>
    rw [hkeys] at himport
    simp only at himport
    split at himport
    · cases himport
    rename_i db' hwrite
    obtain rfl := Except.ok.inj himport
    obtain ⟨hrows, -, hnone⟩ := rows_write hwrite
    exact hs.of_rows (fun _ _ => rfl) (fun t' i' _ hrow => hrows t' i' (hrows₀ ▸ hrow)) fun t' =>
      hnone t' 0 (hzero' t') fun hboth => absurd hboth.2 hid

theorem cached_delete (hok : s.delete M owners h obj = .ok s') : s'.cached t i = s.cached t i := by
  obtain ⟨db, -, heq⟩ := Except.bind_eq_ok_iff.mp hok
  obtain rfl := Except.ok.inj heq
  have hpop : ∀ (l : List (Ref × Targets Ref)) (cache : Dict (Table ⊕ ℕ) (Dict ℕ (Instance Class))),
      (l.foldl (fun cache tgt => match (h tgt.1).id with
        | none => cache
        | some i => cache.erase (.inr i)) cache).get? (.inl t) = cache.get? (.inl t) := by
    intro l
    induction l with
    | nil => exact fun _ => rfl
    | cons tgt rest ih =>
      intro cache
      rw [List.foldl_cons, ih]
      split
      · rfl
      · rw [Dict.get?_erase, if_neg (by simp)]
  show ((List.foldl _ s.cache _).get? _).bind _ = _
  rw [hpop]
  rfl

theorem Coherent.delete (hs : s.Coherent M) (hok : (Op.delete owners h obj : Op Class Ref Table Key Value).Ok M s)
    (hdelete : s.delete M owners h obj = .ok s') : s'.Coherent M ∧ s.Extends s' := by
  have hcache : ∀ t i, s'.cached t i = s.cached t i := fun t i => cached_delete hdelete
  obtain ⟨db, hdb, heq⟩ := Except.bind_eq_ok_iff.mp hdelete
  obtain rfl := Except.ok.inj heq
  obtain ⟨table, htable, hrows⟩ := Database.rows_delete hdb
  refine hs.of_rows hcache (fun t i hcached hrow => ?_) fun t => ?_
  · show (db.rows t i).isSome
    rw [hrows, if_neg]
    · exact hrow
    · rintro ⟨rfl, hmem⟩
      obtain ⟨x, hx, hid⟩ := List.mem_map.mp hmem
      exact hcached (hok x (Database.below_of_mem_deleteTargets hx) _ _ htable hid hrow)
  · show db.rows t 0 = none
    rw [hrows]
    split_ifs
    · rfl
    · exact hs.zero t

theorem Coherent.step (hs : s.Coherent M) {op : Op Class Ref Table Key Value} (hok : op.Ok M s)
    (hstep : s.step M op = .ok s') : s'.Coherent M ∧ s.Extends s' := by
  cases op with
  | new c row => exact hs.new hstep
  | save c i row => exact hs.save hstep
  | importRecord c id row => exact hs.importRecord hok.1 hok.2 hstep
  | load useCache c i =>
    obtain rfl := Except.ok.inj hstep
    obtain ⟨hcoherent, hextends, -⟩ := hs.load useCache c i
    exact ⟨hcoherent, hextends⟩
  | query c ids =>
    obtain rfl := Except.ok.inj hstep
    exact hs.query c ids
  | deleteWhere t selects =>
    obtain rfl := Except.ok.inj hstep
    exact hs.deleteWhere hok
  | delete owners h obj => exact hs.delete hok hstep

omit [DecidableEq Key] in
theorem Coherent.follows (hs : s.Coherent M) : s.Follows M := by
  intro useCache c i hown
  obtain ⟨hcoherent, -, hiff, hcached⟩ := hs.load useCache c i
  refine ⟨hiff, fun o ho => ?_⟩
  obtain ⟨ho', hcls⟩ := hcached o ho
  exact ⟨hcls hown, (hcoherent.row _ i o ho').2.2⟩

/-- In every state that is reached from an empty cache without removing rows whose objects were loaded, loading by id
follows the rows, but for rows that were loaded as objects of another class; and what is loaded stays the object of its
row in all that follows. -/
theorem cache_coherent {s₀ : CachedDatabase Class Table Value} (hcache : s₀.cache = ∅)
    (hzero : ∀ t, s₀.db.rows t 0 = none)
    (hrun : Run.Reaches (fun s (op : Op Class Ref Table Key Value) => s.step M op) (Op.Ok M) s₀ s) :
    s.Follows M ∧ ∀ useCache c i o, (s.load M useCache c i).1 = some o → ∀ s',
      Run.Reaches (fun s (op : Op Class Ref Table Key Value) => s.step M op) (Op.Ok M) (s.load M useCache c i).2 s' →
        ∀ useCache', (s'.load M useCache' c i).1 = some o := by
  have hinit : s₀.Coherent M := by
    refine ⟨fun t i o ho => ?_, hzero⟩
    rw [cached, hcache, Dict.get?_empty] at ho
    cases ho
  have hs : s.Coherent M := hrun.invariant (I := Coherent M) hinit fun _ _ _ hs hok hstep => (hs.step hok hstep).1
  refine ⟨hs.follows, fun useCache c i o ho s' hrun' useCache' => ?_⟩
  obtain ⟨hcoherent, -, -, hcached⟩ := hs.load useCache c i
  obtain ⟨hs', ho'⟩ := hrun'.invariant (I := fun s' => s'.Coherent M ∧ s'.cached (M.table c) i = some o)
    ⟨hcoherent, (hcached o ho).1⟩ fun s₁ op s₂ hs₁ hok hstep => by
      obtain ⟨hcoherent', hextends⟩ := hs₁.1.step hok hstep
      exact ⟨hcoherent', hextends _ i o hs₁.2⟩
  obtain ⟨-, hextends, hiff, hcached'⟩ := hs'.load useCache' c i
  obtain ⟨o', ho''⟩ := Option.isSome_iff_exists.mp (hiff.mpr (hs'.row _ i o ho').1)
  rw [ho'', ← hextends _ i o ho', (hcached' o' ho'').1]

end steps

/-! ### An example -/

/-- The classes of the database, whose rows have the one key `others` where they have keys. -/
def exampleClasses : DbClasses DbClass DbTable ℕ where
  table := DbClass.table
  sameKeys
    | .wireGuardKeyPair | .wireGuardPsk => some fun old row => old.fields.others = row.fields.others
    | _ => none
  ownerTypes := DbTable.ownerTypes

/-- A database without rows. -/
def exampleEmpty : CachedDatabase DbClass DbTable ℕ := ⟨⟨fun _ _ => none, fun _ => 0⟩, ∅, 0⟩

/-- A cell with an id. -/
def exampleCell (i : ℕ) : Heap ℕ DbTable String (Columns DbTable ℕ) := fun _ =>
  { table := some .cells, eqProperties := none, id := some i, objectId := some i, fields := ⟨none, 0⟩, generationTs := 0,
    saved := true, loaded := true, valid := true }

/-- A cell that was loaded and deleted is loaded again. -/
theorem load_deleted : ∃ s₁ s₂, exampleEmpty.new exampleClasses .cell ⟨⟨none, 0⟩, 0⟩ = .ok s₁ ∧
    (s₁.load exampleClasses true .cell 1).2.delete exampleClasses (fun _ => none) (exampleCell 1) (0, .nil) = .ok s₂ ∧
    s₂.db.rows .cells 1 = none ∧ (s₂.load exampleClasses true .cell 1).1 = some ⟨1, .cell, 1⟩ :=
  ⟨_, _, rfl, rfl, rfl, rfl⟩

/-- The row of an agent that was loaded as its configuration is never loaded as an agent. -/
example : ∃ s₁, exampleEmpty.new exampleClasses .agent ⟨⟨none, 0⟩, 0⟩ = .ok s₁ ∧
    ((s₁.load exampleClasses true .agentConfig 1).2.load exampleClasses true .agent 1).1 = some ⟨1, .agentConfig, 1⟩ :=
  ⟨_, rfl, rfl⟩

/-- Of two cells one is loaded, and the other one is deleted; a key pair makes place for another one. -/
theorem cache_coherent_cells : ∃ s₁ s₂ s₃ s₄ s₅ o, exampleEmpty.new exampleClasses .cell ⟨⟨none, 0⟩, 0⟩ = .ok s₁ ∧
    (s₁.load exampleClasses true .cell 1).1 = some o ∧
    (s₁.load exampleClasses true .cell 1).2.new exampleClasses .cell ⟨⟨none, 0⟩, 0⟩ = .ok s₂ ∧
    s₂.delete exampleClasses (fun _ => none) (exampleCell 2) (0, .nil) = .ok s₃ ∧
    s₃.importRecord exampleClasses .wireGuardKeyPair (some 3) ⟨⟨none, 7⟩, 0⟩ = .ok s₄ ∧
    s₄.importRecord exampleClasses .wireGuardKeyPair (some 4) ⟨⟨none, 7⟩, 0⟩ = .ok s₅ ∧
    s₅.db.rows .asymmKeys 3 = none ∧ s₅.Follows exampleClasses ∧ (s₅.load exampleClasses false .cell 1).1 = some o := by
  obtain ⟨s₁, s₂, s₃, s₄, s₅, o, hnew, hload, hnew', hdelete, himport, himport', hgone, hnone, hcached, hkeys⟩ :
      ∃ s₁ s₂ s₃ s₄ s₅ o, exampleEmpty.new exampleClasses .cell ⟨⟨none, 0⟩, 0⟩ = .ok s₁ ∧
      (s₁.load exampleClasses true .cell 1).1 = some o ∧
      (s₁.load exampleClasses true .cell 1).2.new exampleClasses .cell ⟨⟨none, 0⟩, 0⟩ = .ok s₂ ∧
      s₂.delete exampleClasses (fun _ => none) (exampleCell 2) (0, .nil) = .ok s₃ ∧
      s₃.importRecord exampleClasses .wireGuardKeyPair (some 3) ⟨⟨none, 7⟩, 0⟩ = .ok s₄ ∧
      s₄.importRecord exampleClasses .wireGuardKeyPair (some 4) ⟨⟨none, 7⟩, 0⟩ = .ok s₅ ∧
      s₅.db.rows .asymmKeys 3 = none ∧ s₁.cached .cells 1 = none ∧ s₂.cached .cells 2 = none ∧
      (∀ i, s₃.cached .asymmKeys i = none) ∧ ∀ i, s₄.cached .asymmKeys i = none :=
    ⟨_, _, _, _, _, _, rfl, rfl, rfl, rfl, rfl, rfl, rfl, rfl, rfl, fun _ => rfl, fun _ => rfl⟩
  have hstart : Run.Reaches (fun s (op : Op DbClass ℕ DbTable String ℕ) => s.step exampleClasses op)
      (Op.Ok exampleClasses) exampleEmpty s₁ := .step (.new .cell ⟨⟨none, 0⟩, 0⟩) .refl trivial hnew
  have hrest : Run.Reaches (fun s (op : Op DbClass ℕ DbTable String ℕ) => s.step exampleClasses op)
      (Op.Ok exampleClasses) (s₁.load exampleClasses true .cell 1).2 s₅ := by
    have hdeletable : (Op.delete (fun _ => none) (exampleCell 2) (0, .nil)).Ok exampleClasses s₂ := by
      intro x _ t i ht hid _
      cases ht
      cases hid
      exact hcached
    have hrun : Run.Reaches (fun s (op : Op DbClass ℕ DbTable String ℕ) => s.step exampleClasses op)
        (Op.Ok exampleClasses) (s₁.load exampleClasses true .cell 1).2 s₂ :=
      .step (.new .cell ⟨⟨none, 0⟩, 0⟩) .refl trivial hnew'
    have hrun := hrun.step (Op.delete (fun _ => none) (exampleCell 2) (0, .nil)) hdeletable hdelete
    have hrun := hrun.step (Op.importRecord DbClass.wireGuardKeyPair (some 3) ⟨⟨none, 7⟩, 0⟩)
      ⟨by decide, fun _ _ i _ _ _ _ => hkeys.1 i⟩ himport
    exact hrun.step (Op.importRecord DbClass.wireGuardKeyPair (some 4) ⟨⟨none, 7⟩, 0⟩)
      ⟨by decide, fun _ _ i _ _ _ _ => hkeys.2 i⟩ himport'
  have hown : s₁.LoadsOwn exampleClasses .cell 1 := fun o ho => by
    rw [show s₁.cached (exampleClasses.table .cell) 1 = none from hnone] at ho
    cases ho
  have hrun := (Run.Reaches.step (Op.load true DbClass.cell 1) hstart hown rfl).trans hrest
  exact ⟨s₁, s₂, s₃, s₄, s₅, o, hnew, hload, hnew', hdelete, himport, himport', hgone,
    (cache_coherent rfl (fun _ => rfl) hrun).1,
    (cache_coherent rfl (fun _ => rfl) hstart).2 true .cell 1 o hload s₅ hrest false⟩

end CachedDatabase

end Uno
