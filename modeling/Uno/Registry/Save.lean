import Mathlib.Data.List.Basic
import Mathlib.Logic.Function.Basic

/-!
# Saving objects

`Database._save_all` collects the objects to save with the ones nested in them and writes them one
after the other in a transaction. The rows it wrote are rolled back if a write fails; what it did to
the objects in memory is not. Values that an object writes to its row are opaque (`Value`), all but
the id and the time of the last save.
-/

namespace Uno

/-! ### Objects and rows -/

structure Row (Value : Type) where
  fields : Value
  generationTs : ℕ
  deriving DecidableEq

/-- What `_save_all` uses of an object. -/
structure DatabaseObject (Table Key Value : Type) where
  /-- `DB_TABLE`. A transient object has none. -/
  table : Option Table
  /-- The class and the values of its `EQ_PROPERTIES`, if it has its own. -/
  eqProperties : Option Key
  id : Option ℕ
  /-- The id in the cached property `object_id`. -/
  objectId : Option ℕ
  fields : Value
  generationTs : ℕ
  /-- The attribute `_saved`. -/
  saved : Bool
  loaded : Bool
  /-- `validate` does not raise. -/
  valid : Bool

/-- The rows of each table by their id, and the ids that were handed out. -/
structure Database (Table Value : Type) where
  rows : Table → ℕ → Option (Row Value)
  nextId : Table → ℕ

/-- Objects, each with the ones nested in it. -/
inductive Targets (Ref : Type) where
  | nil
  | cons (tgt : Ref) (nested rest : Targets Ref)

variable {Ref Table Key Value : Type}

namespace DatabaseObject

/-- Two objects are equal if these are. -/
def eqKey (o : DatabaseObject Table Key Value) : Key ⊕ Option Table × Option ℕ :=
  match o.eqProperties with
  | some key => .inl key
  | none => .inr (o.table, o.objectId)

def row (o : DatabaseObject Table Key Value) : Row Value := ⟨o.fields, o.generationTs⟩

end DatabaseObject

/-- The objects in memory. -/
abbrev Heap (Ref Table Key Value : Type) := Ref → DatabaseObject Table Key Value

namespace Targets

/-- `collect_nested`: what is nested in an object comes before it. -/
def collectNested : Targets Ref → List (Ref × Targets Ref)
  | .nil => []
  | .cons tgt nested rest => nested.collectNested ++ (tgt, nested) :: rest.collectNested

/-- The transient objects that the setter of `saved` goes on to. -/
def transient (h : Heap Ref Table Key Value) : Targets Ref → List Ref
  | .nil => []
  | .cons tgt nested rest =>
    (if (h tgt).table.isNone then tgt :: nested.transient h else []) ++ rest.transient h

end Targets

/-- The property `saved`. -/
def isSaved (h : Heap Ref Table Key Value) (tgt : Ref × Targets Ref) : Bool :=
  (h tgt.1).saved && tgt.2.collectNested.all fun n => (h n.1).saved

/-- The objects that setting `saved` marks. -/
def marks (h : Heap Ref Table Key Value) (tgt : Ref × Targets Ref) : List Ref := tgt.1 :: tgt.2.transient h

/-! ### Writing one object -/

namespace Database

variable [DecidableEq Table]

/-- The row of an object. -/
def rowOf (db : Database Table Value) (o : DatabaseObject Table Key Value) : Option (Row Value) :=
  o.table.bind fun t => o.id.bind (db.rows t)

def setRow (db : Database Table Value) (t : Table) (i : ℕ) (row : Row Value) : Database Table Value :=
  { db with rows := Function.update db.rows t (Function.update (db.rows t) i (some row)) }

/-- The id of an object: a new one from `next_id` if it has none yet. -/
def assignId (db : Database Table Value) (t : Table) (id : Option ℕ) : ℕ × Database Table Value :=
  match id with
  | some i => (i, db)
  | none => (db.nextId t + 1, { db with nextId := Function.update db.nextId t (db.nextId t + 1) })

/-- An `INSERT` of an id that has a row fails, an `UPDATE` of one that has none changes nothing. -/
def write (db : Database Table Value) (create : Bool) (t : Table) (i : ℕ) (row : Row Value) :
    Option (Database Table Value) :=
  if create then if (db.rows t i).isSome then none else some (db.setRow t i row)
  else if (db.rows t i).isSome then some (db.setRow t i row) else some db

end Database

variable [DecidableEq Ref] [DecidableEq Table]

/-- The time and the id that saving sets before the row is written. -/
def stamp (now i : ℕ) (tgt : Ref) (h : Heap Ref Table Key Value) : Heap Ref Table Key Value :=
  Function.update h tgt { h tgt with generationTs := now, id := some i }

/-- `tgt.saved = True` and `tgt.loaded = table is not None`. -/
def markSaved (tgt : Ref × Targets Ref) (h : Heap Ref Table Key Value) : Heap Ref Table Key Value := fun r =>
  if r = tgt.1 then { h r with saved := true, loaded := (h r).table.isSome }
  else if r ∈ tgt.2.transient h then { h r with saved := true }
  else h r

/-- Saving an object, where `left` counts the row writes until one fails. -/
def saveObject (clock : Ref → ℕ) (tgt : Ref × Targets Ref) (left : Option ℕ) (h : Heap Ref Table Key Value)
    (db : Database Table Value) : Heap Ref Table Key Value × Option (Option ℕ × Database Table Value) :=
  match (h tgt.1).table with
  | none =>
    (markSaved tgt (Function.update h tgt.1 { h tgt.1 with generationTs := clock tgt.1 }), some (left, db))
  | some t =>
    let (i, db') := db.assignId t (h tgt.1).id
    let h' := stamp (clock tgt.1) i tgt.1 h
    if left = some 0 then (h', none)
    else
      match db'.write (!(h tgt.1).loaded) t i (h' tgt.1).row with
      | none => (h', none)
      | some db'' =>
        (markSaved tgt (Function.update h' tgt.1 { h' tgt.1 with objectId := some i }),
          some (left.map (· - 1), db''))

/-! ### Writing all -/

/-- `do_save`, up to a failed write. -/
def saveObjects (clock : Ref → ℕ) : List (Ref × Targets Ref) → Option ℕ → Heap Ref Table Key Value →
    Database Table Value → Heap Ref Table Key Value × Option (Option ℕ × Database Table Value)
  | [], left, h, db => (h, some (left, db))
  | tgt :: rest, left, h, db =>
    match saveObject clock tgt left h db with
    | (h', none) => (h', none)
    | (h', some (left', db')) => saveObjects clock rest left' h' db'

/-- The objects that are to be saved: only those with changes, if `dirty`. -/
def collect (dirty : Bool) (targets : Targets Ref) (h : Heap Ref Table Key Value) : List (Ref × Targets Ref) :=
  targets.collectNested.filter fun tgt => !dirty || !isSaved h tgt

variable [DecidableEq Key]

/-- The keys of a dictionary: of equal objects only the first. -/
def queryTargets (h : Heap Ref Table Key Value) : List (Ref × Targets Ref) → List (Ref × Targets Ref)
  | [] => []
  | tgt :: rest => tgt :: (queryTargets h rest).filter fun n => (h n.1).eqKey ≠ (h tgt.1).eqKey

/-- `_save_all`, with the number of ownerships it writes in the end, and the position of a row write
that fails. The result has no database if the transaction is rolled back. -/
def saveAll (clock : Ref → ℕ) (failAt : Option ℕ) (owned : ℕ) (dirty : Bool) (targets : Targets Ref)
    (h : Heap Ref Table Key Value) (db : Database Table Value) :
    Heap Ref Table Key Value × Option (Database Table Value) :=
  if (collect dirty targets h).all fun tgt => (h tgt.1).valid then
    match saveObjects clock (queryTargets h (collect dirty targets h)) failAt h db with
    | (h', none) => (h', none)
    | (h', some (left, db')) => if left.any (· < owned) then (h', none) else (h', some db')
  else (h, none)

/-! ### Consistent states -/

/-- The marks of the objects agree with the rows, each row has one object, and the ids that the objects
in `pending` may still get are new. -/
structure Consistent (pending : Ref → Prop) (h : Heap Ref Table Key Value) (db : Database Table Value) :
    Prop where
  loaded_iff : ∀ r, (h r).table.isSome → ((h r).loaded = true ↔ (db.rowOf (h r)).isSome)
  row_of_saved : ∀ r, (h r).table.isSome → (h r).saved = true → db.rowOf (h r) = some (h r).row
  objectId_of_loaded : ∀ r, (h r).table.isSome → (h r).loaded = true → (h r).objectId = (h r).id
  id_inj : ∀ r r' t i, (h r).table = some t → (h r').table = some t → (h r).id = some i →
    (h r').id = some i → r = r'
  row_le : ∀ r t, pending r → (h r).table = some t → (h r).id = none →
    ∀ i, (db.rows t i).isSome → i ≤ db.nextId t
  id_le : ∀ r t, pending r → (h r).table = some t → (h r).id = none →
    ∀ r' i, (h r').table = some t → (h r').id = some i → i ≤ db.nextId t

/-- What the marks of the objects should mean after `_save_all`. -/
def Retryable (targets : Targets Ref) (db : Database Table Value)
    (result : Heap Ref Table Key Value × Option (Database Table Value)) : Prop :=
  match result with
  | (h, none) => ∀ r, (h r).table.isSome →
    ((h r).loaded = true → (db.rowOf (h r)).isSome) ∧ ((h r).saved = true → db.rowOf (h r) = some (h r).row)
  | (h, some db') => ∀ tgt ∈ targets.collectNested, isSaved h tgt = true ∧
    ((h tgt.1).table.isSome → db'.rowOf (h tgt.1) = some (h tgt.1).row)

/-- The objects of a list that have a row. -/
def rowTargets (h : Heap Ref Table Key Value) (queue : List (Ref × Targets Ref)) : List Ref :=
  (queue.map Prod.fst).filter fun r => (h r).table.isSome

/-- The objects whose rows are written, in order. -/
def writes (dirty : Bool) (targets : Targets Ref) (h : Heap Ref Table Key Value) : List Ref :=
  rowTargets h (queryTargets h (collect dirty targets h))

/-- The write at position `k` fails. -/
def Fails (failAt : Option ℕ) (owned : ℕ) (dirty : Bool) (targets : Targets Ref) (h : Heap Ref Table Key Value)
    (k : ℕ) : Prop :=
  failAt = some k ∧ k < (writes dirty targets h).length + owned

/-- No object is changed before the failing write, but for one whose row is already what would be
written. -/
def Untouched (clock : Ref → ℕ) (dirty : Bool) (targets : Targets Ref) (h : Heap Ref Table Key Value)
    (db : Database Table Value) (k : ℕ) : Prop :=
  (∀ r ∈ (writes dirty targets h).take k, db.rowOf (h r) = some ⟨(h r).fields, clock r⟩) ∧
  ∀ r ∈ (writes dirty targets h)[k]?, (h r).saved = true → db.rowOf (h r) = some ⟨(h r).fields, clock r⟩

/-- No changed object is left out because an equal one is saved, but for transient ones nested in one
that is saved. -/
def Covered (dirty : Bool) (targets : Targets Ref) (h : Heap Ref Table Key Value) : Prop :=
  ∀ tgt ∈ targets.collectNested, (h tgt.1).saved = false →
    tgt.1 ∈ (queryTargets h (collect dirty targets h)).flatMap (marks h)

/-- The objects of a queue that are handled before a row write fails, where `left` counts the writes until then. -/
def handled (h : Heap Ref Table Key Value) : Option ℕ → List (Ref × Targets Ref) → List (Ref × Targets Ref)
  | _, [] => []
  | left, tgt :: rest =>
    if (h tgt.1).table.isNone then tgt :: handled h left rest
    else if left = some 0 then []
    else tgt :: handled h (left.map (· - 1)) rest

/-- The objects, when those that are handled before the write at position `k` count as saved. -/
def markHandled (dirty : Bool) (targets : Targets Ref) (k : ℕ) (h : Heap Ref Table Key Value) :
    Heap Ref Table Key Value := fun r =>
  { h r with
    saved := (h r).saved ||
      decide (r ∈ (handled h (some k) (queryTargets h (collect dirty targets h))).flatMap (marks h)) }

/-- If the object whose write fails is new, no other one is new in its table: the id it got stays with it in
memory, and `next_id` would hand it out again. -/
def IdsApart (dirty : Bool) (targets : Targets Ref) (h : Heap Ref Table Key Value) (k : ℕ) : Prop :=
  ∀ f ∈ (writes dirty targets h)[k]?, (h f).id = none → ∀ tgt ∈ targets.collectNested, tgt.1 ≠ f →
    (h tgt.1).table = (h f).table → (h tgt.1).id ≠ none

/-- The condition under which `_save_all` keeps its promise. -/
def SavesSafely (clock : Ref → ℕ) (failAt : Option ℕ) (owned : ℕ) (dirty : Bool) (targets : Targets Ref)
    (h : Heap Ref Table Key Value) (db : Database Table Value) : Prop :=
  (∀ tgt ∈ collect dirty targets h, (h tgt.1).valid = true) →
    (∀ k, Fails failAt owned dirty targets h k → Untouched clock dirty targets h db k ∧ IdsApart dirty targets h k ∧
      Covered dirty targets (markHandled dirty targets k h)) ∧
    ((∀ k, ¬ Fails failAt owned dirty targets h k) → Covered dirty targets h)

end Uno
