import Mathlib.Data.List.Nodup
import Uno.Registry.Ownership

/-!
# Loading objects

`Database.load` selects rows by the first of its arguments that is given: the id, the condition, or the owner. The other
arguments select nothing, but an object that is made reports the owner that was passed (`load_exact_iff`).
-/

namespace Uno

/-! ### Tables and objects -/

/-- A row of a table: the id, the column of the owner, and the others. -/
structure TableRow (Value : Type) where
  id : ℕ
  owner : Option ObjectId
  others : Value

/-- An object in memory: `_owner`, and the property `owner` once it was read. -/
structure LoadedObject where
  id : ℕ
  ownerArg : Option ObjectId
  memo : Option (Option ObjectId)

/-- The table of an ownable class, the objects of it in the cache, and the rows of possible owners. -/
structure LoadState (Value : Type) where
  rows : List (TableRow Value)
  ids_nodup : (rows.map TableRow.id).Nodup
  ownerTypes : List DbTable
  ownerExists : ObjectId → Bool
  cache : ℕ → Option LoadedObject
  cache_id : ∀ (i : ℕ) (o : LoadedObject), cache i = some o → o.id = i
  /-- The order of `DB_ORDER_BY`. -/
  orderBy : List (TableRow Value) → List (TableRow Value)
  orderBy_perm : ∀ l, (orderBy l).Perm l

/-- The arguments `id`, `where` with its parameters, and `owner`. -/
structure LoadArgs (Value : Type) where
  id : Option ℕ := none
  condition : Option (TableRow Value → Bool) := none
  owner : Option ObjectId := none

namespace LoadState

variable {Value : Type} (s : LoadState Value) (args : LoadArgs Value)

/-- `Database.owner`: the owner in the column, which must exist. -/
def dbOwner (i : ℕ) : Result (Option ObjectId) :=
  match (s.rows.find? fun row => row.id = i).bind TableRow.owner with
  | none => .ok none
  | some owner =>
    if owner.1 ∈ s.ownerTypes then
      if s.ownerExists owner then .ok (some owner) else .error .stopIteration
    else .error .assertion

/-- The property `owner` of an object. -/
def reportedOwner (o : LoadedObject) : Result (Option ObjectId) :=
  match o.memo with
  | some owner => .ok owner
  | none =>
    match o.ownerArg with
    | some owner => .ok (some owner)
    | none => s.dbOwner o.id

/-- `deserialize`, with the owner that was passed. -/
def deserialize (row : TableRow Value) : LoadedObject := (s.cache row.id).getD ⟨row.id, args.owner, none⟩

/-- `_load_targets`, but for the object in the cache. -/
def selectRows : Result (List (TableRow Value)) :=
  match args.id with
  | some i => .ok (s.orderBy (s.rows.filter fun row => row.id = i))
  | none =>
    match args.condition with
    | some condition => .ok (s.orderBy (s.rows.filter condition))
    | none =>
      match args.owner with
      | some owner =>
        if owner.1 ∈ s.ownerTypes then .ok (s.orderBy (s.rows.filter fun row => row.owner = some owner))
        else .error (.key owner.2)
      | none => .ok (s.orderBy s.rows)

def load : Result (List LoadedObject) :=
  match args.id.bind s.cache with
  | some o => .ok [o]
  | none => do
    let rows ← s.selectRows args
    .ok (rows.map (s.deserialize args))

/-! ### Exact loads -/

/-- The row satisfies all arguments that are given. -/
def Matches (row : TableRow Value) : Prop :=
  (∀ i ∈ args.id, row.id = i) ∧ (∀ condition ∈ args.condition, condition row = true) ∧
    ∀ owner ∈ args.owner, row.owner = some owner

/-- An object for each row that satisfies the arguments, and for no other, which reports the owner of the row. -/
structure LoadsExactly (objects : List LoadedObject) : Prop where
  ids : ∀ i, i ∈ objects.map LoadedObject.id ↔ ∃ row ∈ s.rows, row.id = i ∧ Matches args row
  nodup : (objects.map LoadedObject.id).Nodup
  owners : ∀ o ∈ objects, ∀ row ∈ s.rows, row.id = o.id → s.reportedOwner o = .ok row.owner

/-- The row satisfies the argument that selects rows. -/
def Selected (row : TableRow Value) : Prop :=
  match args.id, args.condition, args.owner with
  | some i, _, _ => row.id = i
  | none, some condition, _ => condition row = true
  | none, none, some owner => row.owner = some owner
  | none, none, none => True

/-- The object of a row will report its owner: the one in the cache does; a new one has the owner as an argument, or can
look it up. -/
def OwnerKnown (row : TableRow Value) : Prop :=
  match s.cache row.id with
  | some o => s.reportedOwner o = .ok row.owner
  | none => args.owner.isSome ∨ ∀ owner ∈ row.owner, owner.1 ∈ s.ownerTypes ∧ s.ownerExists owner = true

/-- The arguments that select nothing are satisfied all the same. -/
structure Unshadowed : Prop where
  /-- An object that is looked up by its id in the cache has a row. -/
  cached : ∀ i ∈ args.id, (s.cache i).isSome → i ∈ s.rows.map TableRow.id
  /-- Objects that are looked up by their owner are of a class that it may own. -/
  ownable : args.id = none → args.condition = none → ∀ owner ∈ args.owner, owner.1 ∈ s.ownerTypes
  satisfied : ∀ row ∈ s.rows, Selected args row → Matches args row
  known : ∀ row ∈ s.rows, Selected args row → s.OwnerKnown args row

/-! ### What is selected -/

section select
variable {s args}

theorem Matches.selected {row : TableRow Value} (h : Matches args row) : Selected args row := by
  obtain ⟨_ | i, _ | condition, _ | owner⟩ := args
  · trivial
  · exact h.2.2 owner rfl
  · exact h.2.1 condition rfl
  · exact h.2.1 condition rfl
  all_goals exact h.1 i rfl

theorem id_deserialize (row : TableRow Value) : (s.deserialize args row).id = row.id := by
  unfold deserialize
  cases hcache : s.cache row.id with
  | none => rfl
  | some o => exact s.cache_id _ _ hcache

theorem row_unique {row row' : TableRow Value} (hrow : row ∈ s.rows) (hrow' : row' ∈ s.rows) (h : row.id = row'.id) :
    row = row' := List.inj_on_of_nodup_map s.ids_nodup hrow hrow' h

theorem reportedOwner_new {row : TableRow Value} (hrow : row ∈ s.rows) (hcache : s.cache row.id = none)
    (howner : ∀ owner ∈ args.owner, row.owner = some owner) :
    s.reportedOwner (s.deserialize args row) = .ok row.owner ↔ s.OwnerKnown args row := by
  have hfind : (s.rows.find? fun r => r.id = row.id) = some row := by
    cases h : s.rows.find? fun r => r.id = row.id with
    | none => exact absurd (List.find?_eq_none.mp h row hrow) (by simp)
    | some r => rw [row_unique (List.mem_of_find?_eq_some h) hrow (by simpa using List.find?_some h)]
  rw [deserialize, OwnerKnown, hcache]
  cases harg : args.owner with
  | some owner =>
    refine iff_of_true ?_ (.inl rfl)
    rw [howner owner harg]
    rfl
  | none =>
    show s.dbOwner row.id = .ok row.owner ↔ _
    rw [dbOwner, hfind, Option.bind_some]
    cases row.owner with
    | none => simp
    | some owner =>
      dsimp only
      split_ifs with htype hexists
      · simp [htype, hexists]
      · simp [htype, hexists]
      · simp [htype]

theorem reportedOwner_deserialize {row : TableRow Value} (hrow : row ∈ s.rows)
    (howner : ∀ owner ∈ args.owner, row.owner = some owner) :
    s.reportedOwner (s.deserialize args row) = .ok row.owner ↔ s.OwnerKnown args row := by
  cases hcache : s.cache row.id with
  | none => exact reportedOwner_new hrow hcache howner
  | some o =>
    rw [deserialize, OwnerKnown, hcache]
    rfl

theorem mem_orderBy {l : List (TableRow Value)} {row : TableRow Value} : row ∈ s.orderBy l ↔ row ∈ l :=
  (s.orderBy_perm l).mem_iff

/-- The rows that are selected, each one once, where a selection by owner is possible. -/
theorem selectRows_spec
    (hownable : args.id = none → args.condition = none → ∀ owner ∈ args.owner, owner.1 ∈ s.ownerTypes) :
    ∃ rows, s.selectRows args = .ok rows ∧ (rows.map TableRow.id).Nodup ∧
      ∀ row, row ∈ rows ↔ row ∈ s.rows ∧ Selected args row := by
  have hnodup (p : TableRow Value → Bool) : ((s.orderBy (s.rows.filter p)).map TableRow.id).Nodup := by
    rw [((s.orderBy_perm _).map _).nodup_iff]
    exact s.ids_nodup.sublist (List.filter_sublist.map _)
  obtain ⟨_ | i, _ | condition, _ | owner⟩ := args
  · refine ⟨_, rfl, ?_, fun row => ?_⟩
    · rw [((s.orderBy_perm _).map _).nodup_iff]
      exact s.ids_nodup
    · simp [mem_orderBy, Selected]
  · have htype := hownable rfl rfl owner rfl
    refine ⟨_, if_pos htype, hnodup _, fun row => ?_⟩
    simp [mem_orderBy, Selected]
  · exact ⟨_, rfl, hnodup _, fun row => by simp [mem_orderBy, Selected]⟩
  · exact ⟨_, rfl, hnodup _, fun row => by simp [mem_orderBy, Selected]⟩
  all_goals exact ⟨_, rfl, hnodup _, fun row => by simp [mem_orderBy, Selected]⟩

theorem ownable_of_load {objects : List LoadedObject} (h : s.load args = .ok objects) (hid : args.id = none)
    (hcondition : args.condition = none) : ∀ owner ∈ args.owner, owner.1 ∈ s.ownerTypes := by
  intro owner howner
  rw [Option.mem_def] at howner
  by_contra htype
  simp [load, selectRows, hid, hcondition, howner, htype, bind, Except.bind] at h

/-! ### Loads -/

theorem loadsExactly_cached_iff {i : ℕ} {o : LoadedObject} (hid : args.id = some i) (hcache : s.cache i = some o) :
    s.LoadsExactly args [o] ↔ s.Unshadowed args := by
  have hoid := s.cache_id i o hcache
  constructor
  · intro h
    obtain ⟨row, hrow, hrowid, hmatches⟩ := (h.ids o.id).mp (by simp)
    have hrows : ∀ r ∈ s.rows, Selected args r → r = row := by
      intro r hr hselected
      rw [Selected, hid] at hselected
      exact row_unique hr hrow (by omega)
    refine ⟨?_, by simp [hid], ?_, ?_⟩
    · intro j hj _
      rw [hid, Option.mem_some_iff] at hj
      exact List.mem_map.mpr ⟨row, hrow, by omega⟩
    · intro r hr hselected
      rw [hrows r hr hselected]
      exact hmatches
    · intro r hr hselected
      rw [hrows r hr hselected, OwnerKnown, hrowid, hoid, hcache]
      exact h.owners o (by simp) row hrow (by omega)
  · intro h
    obtain ⟨row, hrow, hrowid⟩ := List.mem_map.mp (h.cached i hid (by simp [hcache]))
    have hselected (r : TableRow Value) (hrid : r.id = i) : Selected args r := by
      rw [Selected, hid]
      exact hrid
    refine ⟨fun j => ?_, by simp, ?_⟩
    · rw [List.map_singleton, List.mem_singleton]
      constructor
      · intro hj
        exact ⟨row, hrow, by omega, h.satisfied row hrow (hselected row hrowid)⟩
      · rintro ⟨r, -, hrid, hmatches⟩
        have := hmatches.1 i hid
        omega
    · intro o' ho' r hr hrid
      rw [List.mem_singleton.mp ho'] at hrid ⊢
      have hknown := h.known r hr (hselected r (by omega))
      rwa [OwnerKnown, show r.id = i by omega, hcache] at hknown

theorem loadsExactly_rows_iff {rows : List (TableRow Value)} (hcached : ∀ i ∈ args.id, s.cache i = none)
    (hownable : args.id = none → args.condition = none → ∀ owner ∈ args.owner, owner.1 ∈ s.ownerTypes)
    (hnodup : (rows.map TableRow.id).Nodup) (hrows : ∀ row, row ∈ rows ↔ row ∈ s.rows ∧ Selected args row) :
    s.LoadsExactly args (rows.map (s.deserialize args)) ↔ s.Unshadowed args := by
  have hids : (rows.map (s.deserialize args)).map LoadedObject.id = rows.map TableRow.id := by
    rw [List.map_map]
    exact List.map_congr_left fun row _ => id_deserialize row
  constructor
  · intro h
    have hsatisfied : ∀ row ∈ s.rows, Selected args row → Matches args row := by
      intro row hrow hselected
      have hmem : row.id ∈ (rows.map (s.deserialize args)).map LoadedObject.id := by
        rw [hids]
        exact List.mem_map_of_mem ((hrows row).mpr ⟨hrow, hselected⟩)
      obtain ⟨row', hrow', hrowid, hmatches⟩ := (h.ids row.id).mp hmem
      rwa [row_unique hrow' hrow hrowid] at hmatches
    refine ⟨?_, hownable, hsatisfied, ?_⟩
    · intro i hi hsome
      rw [hcached i hi] at hsome
      cases hsome
    · intro row hrow hselected
      rw [← reportedOwner_deserialize hrow (hsatisfied row hrow hselected).2.2]
      exact h.owners _ (List.mem_map_of_mem ((hrows row).mpr ⟨hrow, hselected⟩)) row hrow (id_deserialize row).symm
  · intro h
    refine ⟨fun i => ?_, hids ▸ hnodup, ?_⟩
    · rw [hids, List.mem_map]
      constructor
      · rintro ⟨row, hrow, hrowid⟩
        obtain ⟨hmem, hselected⟩ := (hrows row).mp hrow
        exact ⟨row, hmem, hrowid, h.satisfied row hmem hselected⟩
      · rintro ⟨row, hrow, hrowid, hmatches⟩
        exact ⟨row, (hrows row).mpr ⟨hrow, hmatches.selected⟩, hrowid⟩
    · intro o ho row hrow hrowid
      obtain ⟨row', hrow', rfl⟩ := List.mem_map.mp ho
      obtain ⟨hmem, hselected⟩ := (hrows row').mp hrow'
      rw [id_deserialize] at hrowid
      rw [row_unique hrow hmem hrowid]
      exact (reportedOwner_deserialize hmem (h.satisfied row' hmem hselected).2.2).mpr (h.known row' hmem hselected)

end select

/-- A load makes exactly the objects that were asked for, if and only if the arguments that it ignores hide nothing. -/
theorem load_exact_iff :
    (∃ objects, s.load args = .ok objects ∧ s.LoadsExactly args objects) ↔ s.Unshadowed args := by
  cases hcache : args.id.bind s.cache with
  | some o =>
    obtain ⟨i, hid, hcache'⟩ := Option.bind_eq_some_iff.mp hcache
    rw [← loadsExactly_cached_iff hid hcache']
    have hload : s.load args = .ok [o] := by rw [load, hcache]
    constructor
    · rintro ⟨objects, hobjects, h⟩
      rw [hload, Except.ok.injEq] at hobjects
      rwa [hobjects]
    · intro h
      exact ⟨[o], hload, h⟩
  | none =>
    have hcached : ∀ i ∈ args.id, s.cache i = none := fun i hi => by
      rw [← hcache, Option.mem_def.mp hi, Option.bind_some]
    have hload : s.load args = s.selectRows args >>= fun rows => .ok (rows.map (s.deserialize args)) := by
      rw [load, hcache]
    constructor
    · rintro ⟨objects, hobjects, h⟩
      have hownable := ownable_of_load hobjects
      obtain ⟨rows, hselect, hnodup, hrows⟩ := selectRows_spec hownable
      rw [hload, hselect] at hobjects
      rw [← loadsExactly_rows_iff hcached hownable hnodup hrows, Except.ok.inj hobjects]
      exact h
    · intro h
      obtain ⟨rows, hselect, hnodup, hrows⟩ := selectRows_spec h.ownable
      refine ⟨rows.map (s.deserialize args), ?_, ?_⟩
      · rw [hload, hselect]
        rfl
      · exact (loadsExactly_rows_iff hcached h.ownable hnodup hrows).mpr h

end LoadState

/-- Two rows of agents, of the UVN and of a cell, with one identifier of the configuration. -/
def agentRows : LoadState String where
  rows := [⟨1, some (.uvns, 1), "e3b0"⟩, ⟨2, some (.cells, 7), "e3b0"⟩]
  ids_nodup := by decide
  ownerTypes := [.uvns, .cells]
  ownerExists := fun _ => true
  cache := fun _ => none
  cache_id := fun _ _ h => by cases h
  orderBy := fun l => l
  orderBy_perm := fun _ => .refl _

/-- `Agent.open`: the owner that is passed beside a condition selects nothing, and both rows report it. -/
theorem agentRows_shadowed :
    let args : LoadArgs String := { condition := some fun row => row.others = "e3b0", owner := some (.cells, 7) }
    (agentRows.load args).map (List.map fun o => (o.id, agentRows.reportedOwner o)) =
        .ok [(1, .ok (some (.cells, 7))), (2, .ok (some (.cells, 7)))] ∧
      ¬∃ objects, agentRows.load args = .ok objects ∧ agentRows.LoadsExactly args objects := by
  refine ⟨by rfl, ?_⟩
  rintro ⟨objects, hload, hexact⟩
  obtain rfl : [⟨1, some (.cells, 7), none⟩, ⟨2, some (.cells, 7), none⟩] = objects := Except.ok.inj hload
  obtain ⟨row, hrow, hid, -, -, howner⟩ := (hexact.ids 1).mp (by simp)
  have hcell := howner (.cells, 7) rfl
  rw [agentRows, List.mem_pair] at hrow
  obtain rfl | rfl := hrow
  · cases hcell
  · cases hid

end Uno
