import Uno.Registry.Delete

/-!
# Ownership

All ownable classes keep their owner in a column of their table. `Database.setOwnership` sets that column
(`ownerOf_setOwnership`), but the method of the objects passes the argument `owner` to it twice, and raises. So the
owner of an object never changes, an object without owner can be reset, and deleting a user does what it should
exactly when the user owns nothing (`ownership_iff`).
-/

namespace Uno

/-- The columns that ownership depends on: the UVN of a cell or a particle, and the mark of a banned one or user. -/
structure Member where
  uvnId : ℕ
  excluded : Bool
  deriving DecidableEq

/-- The table and the id of an object. -/
abbrev ObjectId := DbTable × ℕ

abbrev OwnerDb := Database DbTable (Columns DbTable Member)

/-! ### The database -/

namespace Database

variable (db : OwnerDb)

/-- `owner`: an owner that is missing raises `StopIteration`. -/
def ownerOf (x : ObjectId) : Result (Option ObjectId) :=
  match db.rows x.1 x.2 with
  | none => .ok none
  | some row =>
    match row.fields.owner with
    | none => .ok none
    | some owner =>
      if owner.1 ∈ x.1.ownerTypes then
        if (db.rows owner.1 owner.2).isSome then .ok (some owner) else .error .stopIteration
      else .error .assertion

def excluded (x : ObjectId) : Bool := (db.rows x.1 x.2).any fun row => row.fields.others.excluded

/-- `_set_ownership` of targets with their current owners. -/
def setOwnerships (owner : ObjectId) (owned : Bool) (targets : List (ObjectId × Option ObjectId)) : Result OwnerDb :=
  targets.foldlM (fun db (x : ObjectId × Option ObjectId) => do
    let (_, db) ← setOwnershipOf DbTable.ownerTypes owner owned x.2 db x.1.1 (some x.1.2)
    .ok db) db

def setOwnership (owner : ObjectId) (targets : List ObjectId) (owned : Bool) : Result OwnerDb :=
  if db.excluded owner && owned then .error (.value "cannot transfer ownership to excluded owner")
  else do
    let currentOwners ← targets.mapM db.ownerOf
    db.setOwnerships owner owned (targets.zip currentOwners)

end Database

/-! ### Objects -/

/-- An argument of `set_ownership`. -/
inductive Argument where
  | owner (owner : ObjectId)
  | targets (targets : List ObjectId)
  | owned (owned : Bool)

/-- Arguments are bound by their position first, then by their keyword; none may be bound twice. -/
def bindArguments (parameters : List String) (positional : List Argument) (keywords : List (String × Argument)) :
    Result (List (String × Argument)) :=
  keywords.foldlM (fun bound keyword =>
    if keyword.1 ∈ bound.map Prod.fst then .error (.type ("got multiple values for argument " ++ keyword.1))
    else if keyword.1 ∈ parameters then .ok (bound ++ [keyword])
    else .error (.type ("got an unexpected keyword argument " ++ keyword.1))) (parameters.zip positional)

/-- A call of `Database.set_ownership`. -/
def Database.callSetOwnership (db : OwnerDb) (positional : List Argument) (keywords : List (String × Argument)) :
    Result OwnerDb := do
  let bound ← bindArguments ["owner", "targets", "owned"] positional keywords
  match bound.lookup "owner", bound.lookup "targets", bound.lookup "owned" with
  | some (.owner owner), some (.targets targets), none => db.setOwnership owner targets true
  | some (.owner owner), some (.targets targets), some (.owned owned) => db.setOwnership owner targets owned
  | _, _, _ => .error (.type "missing a required argument")

namespace OwnableDatabaseObject

variable (db : OwnerDb) (self : ObjectId) (memo : Option (Option ObjectId))

/-- The property `owner`, which is read from the database once. -/
def owner : Result (Option ObjectId) :=
  match memo with
  | some owner => .ok owner
  | none => db.ownerOf self

/-- `_set_ownership`. -/
def changeOwnership (owner : Option ObjectId) : Result OwnerDb := do
  let call := fun owner : ObjectId => fun owned =>
    db.callSetOwnership [.owner owner] [("targets", .targets [self]), ("owner", .owned owned)]
  match owner with
  | some owner => call owner true
  | none =>
    match ← OwnableDatabaseObject.owner db self memo with
    | none => .ok db
    | some owner => call owner false

def setOwnership (owner : ObjectId) : Result OwnerDb := changeOwnership db self memo (some owner)

def resetOwnership : Result OwnerDb := changeOwnership db self memo none

end OwnableDatabaseObject

/-! ### Deleting users -/

/-- A registry with a user in memory, who reads what they own from the database once: the ids of UVNs, and of
cells and particles with the UVN of each. -/
structure UserState where
  db : OwnerDb
  uvnId : ℕ
  ownedUvns : Option (List ℕ)
  ownedCells : Option (List (ℕ × ℕ))
  ownedParticles : Option (List (ℕ × ℕ))
  /-- Ids come from `next_id`. -/
  ids_le : ∀ t i, (db.rows t i).isSome → i ≤ db.nextId t

namespace Database

/-- `load` of the objects of a class by their owner. -/
def loadOwned (db : OwnerDb) (t : DbTable) (u : ℕ) : List (ℕ × ℕ) :=
  (List.range (db.nextId t + 1)).filterMap fun i =>
    match db.rows t i with
    | none => none
    | some row => if row.fields.owner = some (.users, u) then some (i, row.fields.others.uvnId) else none

end Database

namespace UserState

variable (s : UserState) (u : ℕ)

def userUvns : List ℕ := s.ownedUvns.getD ((s.db.loadOwned .uvns u).map Prod.fst)

/-- The cells and particles of the UVN that the user owns. -/
def userObjects : List ObjectId :=
  (((s.ownedCells.getD (s.db.loadOwned .cells u)).filter fun x => x.2 = s.uvnId).map fun x => (.cells, x.1)) ++
    ((s.ownedParticles.getD (s.db.loadOwned .particles u)).filter fun x => x.2 = s.uvnId).map fun x => (.particles, x.1)

/-- The object of a user; no other objects are nested in it. -/
def userObject (u : ℕ) : Heap Unit DbTable String (Columns DbTable Member) := fun _ => {
  table := some .users
  eqProperties := none
  id := some u
  objectId := some u
  fields := ⟨none, 0, false⟩
  generationTs := 0
  saved := true
  loaded := true
  valid := true }

/-- `delete_user`, which the operator confirms. -/
def deleteUser : Result OwnerDb :=
  if s.uvnId ∈ s.userUvns u then .error (.value "uvn owner cannot be deleted")
  else do
    let db ← (s.userObjects u).foldlM (fun db x => do
      match ← db.ownerOf (.uvns, s.uvnId) with
      | none => OwnableDatabaseObject.resetOwnership db x none
      | some owner => OwnableDatabaseObject.setOwnership db x none owner) s.db
    Database.delete DbTable.ownerTypes (fun _ => none) (userObject u) ((), .nil) db

end UserState

/-! ### What the database does -/

namespace Database

variable {db : OwnerDb} {x y owner : ObjectId}

def OwnedBy (db : OwnerDb) (x owner : ObjectId) : Prop :=
  ∃ row, db.rows x.1 x.2 = some row ∧ row.fields.owner = some owner

theorem rows_setOwner (owner? : Option ObjectId) :
    (db.setOwner x.1 x.2 owner?).rows y.1 y.2 =
      if x = y then (db.rows y.1 y.2).map fun row => { row with fields := { row.fields with owner := owner? } }
      else db.rows y.1 y.2 := by
  obtain ⟨t, i⟩ := x
  obtain ⟨t', i'⟩ := y
  show Function.update db.rows t _ t' i' = _
  by_cases ht : t = t'
  · subst ht
    rw [Function.update_self]
    by_cases hi : i = i'
    · subst hi
      rw [Function.update_self, if_pos rfl]
    · rw [Function.update_of_ne (Ne.symm hi), if_neg fun heq => hi (Prod.mk.inj heq).2]
  · rw [Function.update_of_ne (Ne.symm ht), if_neg fun heq => ht (Prod.mk.inj heq).1]

theorem ownerOf_setOwner_of_ne (owner? : Option ObjectId) (hne : x ≠ y) :
    (db.setOwner x.1 x.2 owner?).ownerOf y = db.ownerOf y := by
  have hsome : ∀ z : ObjectId, ((db.setOwner x.1 x.2 owner?).rows z.1 z.2).isSome = (db.rows z.1 z.2).isSome := by
    intro z
    rw [rows_setOwner]
    split_ifs
    · rw [Option.isSome_map]
    · rfl
  unfold ownerOf
  rw [rows_setOwner, if_neg hne]
  simp only [hsome]

theorem ownerOf_setOwnership (hx : (db.rows x.1 x.2).isSome) (hcurrent : ∃ current, db.ownerOf x = .ok current)
    (hclass : owner.1 ∈ x.1.ownerTypes) (howner : (db.rows owner.1 owner.2).isSome) (hexcluded : db.excluded owner = false) :
    ∃ db', db.setOwnership owner [x] true = .ok db' ∧ db'.ownerOf x = .ok (some owner) ∧
      ∀ y, y ≠ x → db'.ownerOf y = db.ownerOf y := by
  obtain ⟨current, hcurrent⟩ := hcurrent
  obtain ⟨row, hrow⟩ := Option.isSome_iff_exists.mp hx
  have hset : db.setOwnership owner [x] true = (do
      let (_, db) ← setOwnershipOf DbTable.ownerTypes owner true current db x.1 (some x.2)
      .ok db) := by
    unfold setOwnership setOwnerships
    rw [hexcluded]
    simp only [Bool.false_and, Bool.false_eq_true, if_false, List.mapM_cons, List.mapM_nil, hcurrent, Except.ok_bind,
      Except.pure_eq_ok, List.zip_cons_cons, List.zip_nil_right, List.foldlM_cons, List.foldlM_nil]
    cases setOwnershipOf DbTable.ownerTypes owner true current db x.1 (some x.2) <;> rfl
  rw [hset]
  unfold setOwnershipOf
  by_cases hsame : current = some owner
  · exact ⟨db, by simp [hsame], hsame ▸ hcurrent, fun _ _ => rfl⟩
  · refine ⟨db.setOwner x.1 x.2 (some owner), by simp [hsame, hclass], ?_,
      fun y hy => ownerOf_setOwner_of_ne _ (Ne.symm hy)⟩
    have hsome : ((db.setOwner x.1 x.2 (some owner)).rows owner.1 owner.2).isSome := by
      rw [rows_setOwner]
      split_ifs
      · rwa [Option.isSome_map]
      · exact howner
    unfold ownerOf
    rw [rows_setOwner, if_pos rfl, hrow]
    simp [hclass, hsome]

end Database

/-! ### What the objects do -/

/-- The operations on the ownership of objects. -/
inductive OwnershipOp where
  | setOwnership (x : ObjectId) (memo : Option (Option ObjectId)) (owner : ObjectId)
  | resetOwnership (x : ObjectId) (memo : Option (Option ObjectId))
  | deleteUser (u : ℕ)

namespace OwnershipOp

variable (s : UserState)

def run : OwnershipOp → Result OwnerDb
  | .setOwnership x memo owner => OwnableDatabaseObject.setOwnership s.db x memo owner
  | .resetOwnership x memo => OwnableDatabaseObject.resetOwnership s.db x memo
  | .deleteUser u => s.deleteUser u

/-- Owners are of a class that may own the object, exist and are not banned; another user owns the UVN. -/
def Admissible : OwnershipOp → Prop
  | .setOwnership x _ owner => (s.db.rows x.1 x.2).isSome ∧ owner.1 ∈ x.1.ownerTypes ∧
      (s.db.rows owner.1 owner.2).isSome ∧ s.db.excluded owner = false
  | .resetOwnership x _ => (s.db.rows x.1 x.2).isSome
  | .deleteUser u => (s.db.rows .users u).isSome ∧ ∃ w, w ≠ u ∧ s.db.ownerOf (.uvns, s.uvnId) = .ok (some (.users, w))

/-- What the operations should do. -/
def Meets : OwnershipOp → Prop
  | op@(.setOwnership x _ owner) => ∃ db, op.run s = .ok db ∧ db.ownerOf x = .ok (some owner) ∧
      ∀ y, y ≠ x → db.ownerOf y = s.db.ownerOf y
  | op@(.resetOwnership x _) => ∃ db, op.run s = .ok db ∧ db.ownerOf x = .ok none ∧
      ∀ y, y ≠ x → db.ownerOf y = s.db.ownerOf y
  | op@(.deleteUser u) => ∃ db, op.run s = .ok db ∧ db.rows .users u = none ∧
      (∀ x : ObjectId, x.1 = .cells ∨ x.1 = .particles → s.db.OwnedBy x (.users, u) →
        (db.rows x.1 x.2).isSome ∧ db.ownerOf x = s.db.ownerOf (.uvns, s.uvnId)) ∧
      (∀ x, x ≠ (.users, u) → ¬ s.db.OwnedBy x (.users, u) → db.ownerOf x = s.db.ownerOf x) ∧
      ∀ x : ObjectId, .users ∈ x.1.ownerTypes → ¬ db.OwnedBy x (.users, u)

/-- When they do it: an object without owner is reset, and a user is deleted who owns nothing, and who owned no cell,
particle or UVN of the registry when what they own was read. -/
def Holds : OwnershipOp → Prop
  | .setOwnership _ _ _ => False
  | .resetOwnership x memo => s.db.ownerOf x = .ok none ∧ (memo = none ∨ memo = some none)
  | .deleteUser u => (∀ x : ObjectId, .users ∈ x.1.ownerTypes → ¬ s.db.OwnedBy x (.users, u)) ∧
      s.uvnId ∉ s.userUvns u ∧ s.userObjects u = []

end OwnershipOp

variable {s : UserState}

/-- The argument `owner` is passed twice. -/
theorem OwnableDatabaseObject.setOwnership_eq_error (db : OwnerDb) (x : ObjectId) (memo : Option (Option ObjectId))
    (owner : ObjectId) :
    setOwnership db x memo owner = .error (.type "got multiple values for argument owner") := rfl

theorem OwnableDatabaseObject.resetOwnership_eq_ok_iff {db db' : OwnerDb} {x : ObjectId}
    {memo : Option (Option ObjectId)} :
    resetOwnership db x memo = .ok db' ↔ OwnableDatabaseObject.owner db x memo = .ok none ∧ db' = db := by
  unfold resetOwnership changeOwnership
  rw [Except.bind_eq_ok_iff]
  constructor
  · rintro ⟨owner?, howner, hok⟩
    cases owner? with
    | none => exact ⟨howner, (Except.ok.inj hok).symm⟩
    | some owner => cases hok
  · rintro ⟨howner, rfl⟩
    exact ⟨none, howner, rfl⟩

namespace UserState

theorem rows_deleteUserObject (db : OwnerDb) (u : ℕ) :
    ∃ db', Database.delete DbTable.ownerTypes (fun _ => none) (userObject u) ((), .nil) db = .ok db' ∧
      ∀ y : ObjectId, db'.rows y.1 y.2 = if y = (.users, u) then none else db.rows y.1 y.2 := by
  have htargets : (Database.deleteTargets (userObject u) ((), .nil)).map (fun x => (userObject u x.1).id) = [some u] := by
    simp [Database.deleteTargets, Worklist.visit, Targets.weight, Targets.children, userObject]
  refine ⟨_, Database.delete_of_table rfl, fun y => ?_⟩
  rw [htargets]
  obtain ⟨t, i⟩ := y
  refine (Database.rows_deleteRows _ _ _ _ _).trans (if_congr ?_ rfl rfl)
  rw [List.mem_singleton, Option.some.injEq, Prod.mk.injEq, eq_comm]

theorem deleteUser_eq_ok_iff {u : ℕ} {owner : ObjectId} {db : OwnerDb}
    (howner : s.db.ownerOf (.uvns, s.uvnId) = .ok (some owner)) :
    s.deleteUser u = .ok db ↔ s.uvnId ∉ s.userUvns u ∧ s.userObjects u = [] ∧
      Database.delete DbTable.ownerTypes (fun _ => none) (userObject u) ((), .nil) s.db = .ok db := by
  unfold deleteUser
  by_cases huvn : s.uvnId ∈ s.userUvns u
  · simp [huvn]
  · rw [if_neg huvn]
    cases hobjects : s.userObjects u with
    | nil => simp [huvn, Except.pure_eq_ok]
    | cons x rest =>
      rw [List.foldlM_cons, howner]
      simp only [Except.ok_bind, OwnableDatabaseObject.setOwnership_eq_error]
      constructor
      · intro h
        cases h
      · rintro ⟨-, h, -⟩
        cases h

end UserState

theorem OwnershipOp.resetOwnership_iff (x : ObjectId) (memo : Option (Option ObjectId)) :
    (resetOwnership x memo).Meets s ↔ (resetOwnership x memo).Holds s := by
  constructor
  · rintro ⟨db, hok, hnone, -⟩
    obtain ⟨howner, rfl⟩ := OwnableDatabaseObject.resetOwnership_eq_ok_iff.mp hok
    refine ⟨hnone, ?_⟩
    cases memo with
    | none => exact .inl rfl
    | some owner? => exact .inr (congrArg some (Except.ok.inj howner))
  · rintro ⟨hnone, hmemo⟩
    refine ⟨s.db, OwnableDatabaseObject.resetOwnership_eq_ok_iff.mpr ⟨?_, rfl⟩, hnone, fun _ _ => rfl⟩
    rcases hmemo with rfl | rfl
    · exact hnone
    · rfl

theorem OwnershipOp.deleteUser_iff {u : ℕ} (h : (deleteUser u).Admissible s) :
    (deleteUser u).Meets s ↔ (deleteUser u).Holds s := by
  obtain ⟨-, w, hw, howner⟩ := h
  obtain ⟨db, hdelete, hrows⟩ := UserState.rows_deleteUserObject s.db u
  have hne : ∀ x : ObjectId, .users ∈ x.1.ownerTypes → x ≠ (.users, u) := by
    rintro x hx rfl
    cases hx
  constructor
  · rintro ⟨db', hok, -, -, -, hdangling⟩
    obtain ⟨huvn, hobjects, hdelete'⟩ := (UserState.deleteUser_eq_ok_iff howner).mp hok
    obtain rfl : db = db' := Except.ok.inj (hdelete.symm.trans hdelete')
    refine ⟨fun x hx howned => hdangling x hx ?_, huvn, hobjects⟩
    obtain ⟨row, hrow, hrowner⟩ := howned
    exact ⟨row, by rw [hrows, if_neg (hne x hx), hrow], hrowner⟩
  · rintro ⟨hnothing, huvn, hobjects⟩
    refine ⟨db, (UserState.deleteUser_eq_ok_iff howner).mpr ⟨huvn, hobjects, hdelete⟩, ?_, fun x hx howned => ?_,
      fun x hx hnot => ?_, fun x hx howned => ?_⟩
    · rw [hrows (.users, u), if_pos rfl]
    · refine absurd howned (hnothing x ?_)
      rcases hx with hx | hx
      · rw [hx]; decide
      · rw [hx]; decide
    · unfold Database.ownerOf
      rw [hrows x, if_neg hx]
      cases hrow : s.db.rows x.1 x.2 with
      | none => rfl
      | some row =>
        cases hrowner : row.fields.owner with
        | none => simp only [hrowner]
        | some owner =>
          have howner : owner ≠ (.users, u) := fun heq => hnot ⟨row, hrow, heq ▸ hrowner⟩
          simp only [hrowner, hrows owner, if_neg howner]
    · obtain ⟨row, hrow, hrowner⟩ := howned
      rw [hrows, if_neg (hne x hx)] at hrow
      exact hnothing x hx ⟨row, hrow, hrowner⟩

/-- The operations on ownership do what they should exactly under their condition: setting the owner of an object
never does, although the database would set it. -/
theorem ownership_iff {op : OwnershipOp} (h : op.Admissible s) :
    (op.Meets s ↔ op.Holds s) ∧
      ∀ x memo owner current, op = .setOwnership x memo owner → s.db.ownerOf x = .ok current →
        ∃ db, s.db.setOwnership owner [x] true = .ok db ∧ db.ownerOf x = .ok (some owner) ∧
          ∀ y, y ≠ x → db.ownerOf y = s.db.ownerOf y := by
  constructor
  · cases op with
    | setOwnership x memo owner =>
      refine ⟨?_, False.elim⟩
      rintro ⟨db, hok, -⟩
      cases hok
    | resetOwnership x memo => exact OwnershipOp.resetOwnership_iff x memo
    | deleteUser u => exact OwnershipOp.deleteUser_iff h
  · rintro x memo owner current rfl hcurrent
    obtain ⟨hx, hclass, howner, hexcluded⟩ := h
    exact Database.ownerOf_setOwnership hx ⟨current, hcurrent⟩ hclass howner hexcluded

/-! ### An example -/

/-- Three users: the first one owns the UVN, and the second one a cell. -/
def exampleOwners : OwnerDb where
  rows t i := match t, i with
    | .users, 1 | .users, 2 | .users, 3 => some ⟨⟨none, 0, false⟩, 0⟩
    | .uvns, 1 => some ⟨⟨some (.users, 1), 0, false⟩, 0⟩
    | .cells, 1 => some ⟨⟨some (.users, 2), 1, false⟩, 0⟩
    | _, _ => none
  nextId _ := 3

def exampleUserState : UserState where
  db := exampleOwners
  uvnId := 1
  ownedUvns := none
  ownedCells := none
  ownedParticles := none
  ids_le t i h := by
    show i ≤ 3
    by_contra hi
    have hnone : exampleOwners.rows t i = none := by
      unfold exampleOwners
      simp only
      split
      all_goals first | omega | rfl
    rw [hnone] at h
    cases h

/-- The cell cannot be given to another user, nor can its owner be deleted. -/
theorem ownership_raises :
    ((OwnershipOp.setOwnership (.cells, 1) none (.users, 1)).Admissible exampleUserState ∧
      ¬ (OwnershipOp.setOwnership (.cells, 1) none (.users, 1)).Meets exampleUserState) ∧
    (OwnershipOp.deleteUser 2).Admissible exampleUserState ∧ ¬ (OwnershipOp.deleteUser 2).Meets exampleUserState := by
  refine ⟨⟨⟨rfl, by decide, rfl, rfl⟩, ?_⟩, ⟨rfl, 1, by decide, rfl⟩, ?_⟩
  · rintro ⟨db, hok, -⟩
    cases hok
  · rintro ⟨db, hok, -⟩
    cases hok

/-- The user who owns nothing can be deleted, and the database can give the cell to the first user. -/
theorem ownership_deleteUser : (OwnershipOp.deleteUser 3).Meets exampleUserState ∧
    ∃ db, exampleOwners.setOwnership (.users, 1) [(.cells, 1)] true = .ok db ∧
      db.ownerOf (.cells, 1) = .ok (some (.users, 1)) := by
  constructor
  · have hadmissible : (OwnershipOp.deleteUser 3).Admissible exampleUserState := ⟨rfl, 1, by decide, rfl⟩
    refine (ownership_iff hadmissible).1.mpr ⟨?_, by decide, by decide⟩
    rintro ⟨t, i⟩ ht ⟨row, hrow, howner⟩
    simp only [exampleUserState, exampleOwners] at hrow
    split at hrow
    all_goals
      cases hrow
      try cases howner
  · have hadmissible : (OwnershipOp.setOwnership (.cells, 1) none (.users, 1)).Admissible exampleUserState :=
      ⟨rfl, by decide, rfl, rfl⟩
    obtain ⟨db, hset, howner, -⟩ := (ownership_iff hadmissible).2 _ _ _ (some (.users, 2)) rfl rfl
    exact ⟨db, hset, howner⟩

end Uno
