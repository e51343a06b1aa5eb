import Uno.Core.Exn
import Uno.Lib.Fold

/-!
# Configuring versioned objects

`Versioned.configure` sets some properties of an object: it stores a value, goes on to a nested object with
a dictionary, or resets a property to its default. `PropertyDescriptor.set` records a change with the value
before it, and marks the object and the ones that contain it as not saved, until `Database._save_all` clears
the record. Values other than objects are opaque (`V`). Two properties of a peer have a `configure_…` method
of their own; it is modelled with the peers.
-/

namespace Uno

namespace Tracking

/-! ### Objects and classes -/

/-- The value that a property stores: `None`, a value that is not an object, or an object. -/
inductive PropertyValue (Class Name V : Type) where
  | none
  | plain (v : V)
  | obj (cls : Class) (storage : Name → PropertyValue Class Name V) (hasPrev : Name → Bool)
      (prev : Name → PropertyValue Class Name V) (changed : Name → Bool) (saved loaded : Bool)

/-- An initialized object. -/
structure VersionedObject (Class Name V : Type) where
  cls : Class
  storage : Name → PropertyValue Class Name V
  /-- The property has a previous value, which `prev` returns. One that was loaded has its default, if it differs. -/
  hasPrev : Name → Bool
  prev : Name → PropertyValue Class Name V
  /-- `changed_properties` -/
  changed : Name → Bool
  /-- The attribute `_saved`. -/
  saved : Bool
  loaded : Bool

/-- An argument of `configure`. A dictionary is a value, and the arguments for a nested object. -/
inductive Arg (Class Name V : Type) where
  | absent
  | reset
  | val (v : PropertyValue Class Name V)
  | dict (plain : V) (fields : Name → Arg Class Name V)

structure PropertyDescriptor (Class Name V : Type) where
  reserved : Bool
  readonly : Bool
  required : Bool
  default : PropertyValue Class Name V
  /-- `prepare_fn`, the identity where there is none. A value that it turns into `None` is not set. -/
  prepare : PropertyValue Class Name V → Result (Option (PropertyValue Class Name V))

structure Schema (Class Name V : Type) where
  properties : List Name
  nodup : properties.Nodup
  descriptor : Name → PropertyDescriptor Class Name V
  /-- `DB_TABLE is not None` -/
  hasTable : Bool
  validate : VersionedObject Class Name V → Result Unit

/-- The classes of a program, and the equality of values. -/
structure Classes (Class Name V : Type) where
  schema : Class → Schema Class Name V
  eq : PropertyValue Class Name V → PropertyValue Class Name V → Bool
  eq_refl : ∀ v, eq v v = true

variable {Class Name V : Type}

def VersionedObject.toVal (o : VersionedObject Class Name V) : PropertyValue Class Name V :=
  .obj o.cls o.storage o.hasPrev o.prev o.changed o.saved o.loaded

namespace PropertyValue

def asObj : PropertyValue Class Name V → Option (VersionedObject Class Name V)
  | .obj cls storage hasPrev prev changed saved loaded => some ⟨cls, storage, hasPrev, prev, changed, saved, loaded⟩
  | _ => Option.none

def isNone : PropertyValue Class Name V → Bool
  | .none => true
  | _ => false

@[simp] theorem asObj_toVal (o : VersionedObject Class Name V) : o.toVal.asObj = some o := rfl

end PropertyValue

namespace Arg

/-- `v is not None` -/
def given : Arg Class Name V → Bool
  | .absent => false
  | .val v => ! v.isNone
  | _ => true

def isDict : Arg Class Name V → Bool
  | .dict _ _ => true
  | _ => false

/-- The argument as a value to store. -/
def value : Arg Class Name V → PropertyValue Class Name V
  | .val v => v
  | .dict plain _ => .plain plain
  | _ => .none

end Arg

/-! ### Setting a property -/

/-- What an object has about one of its properties. -/
structure Slot (Class Name V : Type) where
  value : PropertyValue Class Name V
  hasPrev : Bool
  prev : PropertyValue Class Name V
  changed : Bool

def VersionedObject.slot (o : VersionedObject Class Name V) (k : Name) : Slot Class Name V :=
  ⟨o.storage k, o.hasPrev k, o.prev k, o.changed k⟩

namespace PropertyDescriptor

/-- `PropertyDescriptor.set`, with `updated_property`. A dictionary for a nested object does not get here. The
second result tells whether the object is marked as not saved. -/
def set (M : Classes Class Name V) (desc : PropertyDescriptor Class Name V) (loaded : Bool) (s : Slot Class Name V)
    (val : PropertyValue Class Name V) : Result (Slot Class Name V × Bool) :=
  if !desc.reserved && loaded && desc.readonly then .error (.runtime "attribute is read-only")
  else do
    match ← desc.prepare val with
    | none => .ok (s, false)
    | some val =>
      if M.eq s.value val then .ok (s, false)
      else .ok (⟨val, true, s.value, s.changed || !desc.reserved⟩, !desc.reserved)

/-- `PropertyDescriptor.init` without an initial value. -/
def init (desc : PropertyDescriptor Class Name V) (s : Slot Class Name V) : Result (Slot Class Name V) :=
  if desc.required && desc.default.isNone then .error (.value "missing required property")
  else .ok { s with value := desc.default }

end PropertyDescriptor

/-! ### Configuring an object -/

/-- What `configure` leaves: the object, the names it returns (`k.ch` being the path of `k` and `ch`), and
whether it marked the object and the ones that contain it as not saved. -/
structure Outcome (Class Name V : Type) where
  obj : VersionedObject Class Name V
  configured : List (List Name)
  updated : Bool

/-- The part of an outcome that is about one property. -/
structure Touched (Class Name V : Type) where
  slot : Slot Class Name V
  configured : List (List Name)
  updated : Bool

/-- An argument that `configure` does not ignore. -/
def PropertyDescriptor.relevant (desc : PropertyDescriptor Class Name V) (all : Bool) (arg : Arg Class Name V) : Bool :=
  arg.given && (all || !desc.readonly)

/-- The body of the loop of `configure`, where `nested` configures the object that the property stores. -/
def configureProperty (M : Classes Class Name V) (k : Name) (desc : PropertyDescriptor Class Name V)
    (all loaded : Bool) (nested : VersionedObject Class Name V → Result (Outcome Class Name V))
    (arg : Arg Class Name V) (t : Touched Class Name V) : Result (Touched Class Name V) :=
  if !desc.relevant all arg then .ok t
  else
    match arg, t.slot.value.asObj with
    | .reset, _ => do
      let slot ← desc.init t.slot
      .ok { t with slot := slot }
    | .dict _ _, some x => do
      let r ← nested x
      .ok {
        slot := { t.slot with value := r.obj.toVal }
        configured := if r.configured.isEmpty then [] else [k] :: r.configured.map (k :: ·)
        updated := r.updated }
    | arg, _ => do
      let (slot, updated) ← desc.set M loaded t.slot arg.value
      .ok ⟨slot, if slot.changed then [[k]] else [], updated⟩

variable [DecidableEq Name]

/-- `Versioned.configure` with the arguments of a dictionary. Each of them is about another property, and the
properties are taken in the order of the class. -/
def configure (M : Classes Class Name V) :
    Arg Class Name V → Bool → VersionedObject Class Name V → Result (Outcome Class Name V)
  | .dict _ fields, all, o =>
    let schema := M.schema o.cls
    if ! schema.properties.any fun k => (schema.descriptor k).relevant all (fields k) then .ok ⟨o, [], false⟩
    else do
      let touched ← schema.properties.foldlM (fun (t : Name → Touched Class Name V) k => do
        .ok (Function.update t k (← configureProperty M k (schema.descriptor k) all o.loaded
          (fun x => configure M (fields k) false x) (fields k) (t k)))) fun k => ⟨o.slot k, [], false⟩
      let updated := schema.properties.any fun k => (touched k).updated
      let obj : VersionedObject Class Name V := { o with
        storage := fun k => (touched k).slot.value
        hasPrev := fun k => (touched k).slot.hasPrev
        prev := fun k => (touched k).slot.prev
        changed := fun k => (touched k).slot.changed
        saved := o.saved && !updated }
      schema.validate obj
      .ok ⟨obj, schema.properties.flatMap fun k => (touched k).configured, updated⟩
  | _, _, o => .ok ⟨o, [], false⟩

/-- `changed_values`: once a property is recorded, all previous values. -/
def VersionedObject.changedValues (M : Classes Class Name V) (o : VersionedObject Class Name V) (k : Name) :
    Option (PropertyValue Class Name V) :=
  if (M.schema o.cls).properties.any o.changed && o.hasPrev k then some (o.prev k) else none

/-- The attribute `_saved` of the objects that contain the configured one, after the call. -/
def Outcome.containers (r : Outcome Class Name V) (saved : List Bool) : List Bool := saved.map fun s => s && !r.updated

/-! ### Saving -/

/-- The property `dirty`: the object or one that is nested in it is not saved. -/
def dirty (M : Classes Class Name V) : PropertyValue Class Name V → Bool
  | .obj cls storage _ _ _ saved _ => !saved || (M.schema cls).properties.any fun k => dirty M (storage k)
  | _ => false

/-- What `Database._save_all` does to the objects in memory: it clears the record of the dirty ones and marks
them as saved. -/
def save (M : Classes Class Name V) : PropertyValue Class Name V → PropertyValue Class Name V
  | .obj cls storage hasPrev prev changed saved loaded =>
    if dirty M (.obj cls storage hasPrev prev changed saved loaded) then
      .obj cls (fun k => save M (storage k)) (fun _ => false) prev (fun _ => false) true (M.schema cls).hasTable
    else .obj cls (fun k => save M (storage k)) hasPrev prev changed saved loaded
  | v => v

end Tracking

end Uno
