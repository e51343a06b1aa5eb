import Uno.Core.Exn
import Uno.Lib.Fold
import Mathlib.Data.List.Sort

/-!
# Dumps of versioned objects

`Versioned.serialize` and `Versioned.yaml_dump`: an object becomes a dictionary of its serialized
properties, the secret ones replaced by the `OMITTED` marker in a public dump. Two walks over the
dictionary then drop or replace fields and turn the marker into a null, before the document is written
as YAML or JSON.
-/

namespace Uno

/-- `object_id`: table and id. -/
abbrev DumpId := Text × ℕ

/-- A serialized property of a class. Of the `serialize_…` methods, only the one of a key map's `content`
serializes objects; any other gives a plain value, which stands for the property's value here. -/
structure Attr where
  name : Text
  /-- The property is one of `SECRET_PROPERTIES`. -/
  secret : Bool
  /-- The property's serializer is `VpnKeysMap.serialize_content`. -/
  content : Bool := false
  deriving DecidableEq, Repr

/-- The values of properties and of serialized objects. -/
inductive PyValue where
  | none
  | bool (b : Bool)
  | int (n : ℤ)
  | str (s : Text)
  /-- `Versioned.OMITTED` -/
  | omitted
  | list (xs : List PyValue)
  | tuple (xs : List PyValue)
  | dict (items : List (Text × PyValue))
  /-- A `Versioned` object, with its serialized properties. -/
  | obj (oid : Option DumpId) (attrs : List (Attr × PyValue))

namespace PyValue

open Fold

def isObj : PyValue → Bool
  | .obj _ _ => true
  | _ => false

def isDict : PyValue → Bool
  | .dict _ => true
  | _ => false

/-- `v.object_id` -/
def objectId : PyValue → Result (Option DumpId)
  | .obj oid _ => .ok oid
  | _ => .error (.attribute "object_id")

/-- `if isinstance(val, tuple): val = list(val)` -/
def listed : PyValue → PyValue
  | .tuple xs => .list xs
  | v => v

/-- `v is not False and not v` -/
def dropped : PyValue → Bool
  | .none => true
  | .int n => n = 0
  | .str s => s.isEmpty
  | .list xs => xs.isEmpty
  | .tuple xs => xs.isEmpty
  | .dict items => items.isEmpty
  | _ => false

/-- The entry of a serialized property, none when its value is `None`. -/
def field (name : Text) : PyValue → Option (Text × PyValue)
  | .none => Option.none
  | v => some (name, v.listed)

/-! ### Serializing -/

/-- The order of the tuples `(table, id)`. -/
def idLe (a b : Option DumpId) : Prop :=
  match a, b with
  | some a, some b => a.1 < b.1 ∨ a.1 = b.1 ∧ a.2 ≤ b.2
  | _, _ => True

instance : DecidableRel idLe := fun a b => by
  unfold idLe
  split <;> infer_instance

/-- `[v.serialize(public=public) for v in sorted(val, key=lambda v: v.object_id)]`, from each element's id and
serialization. Two ids do not compare when one of them is `None`. -/
def sortedSerialized (entries : List (Result (Option DumpId) × Result PyValue)) : Result PyValue := do
  let keyed ← Fold.sequence (entries.map fun e => (·, e.2) <$> e.1)
  if keyed.length ≤ 1 ∨ ∀ e ∈ keyed, e.1.isSome then
    .list <$> Fold.sequence ((keyed.insertionSort fun a b => idLe a.1 b.1).map Prod.snd)
  else .error (.type "'<' not supported between instances of 'NoneType' and 'NoneType'")

theorem sizeOf_attr {oid : Option DumpId} {attrs : List (Attr × PyValue)} {p : Attr × PyValue}
    (hp : p ∈ attrs) : sizeOf p.2 < sizeOf (PyValue.obj oid attrs) := by
  have hmem := List.sizeOf_lt_of_mem hp
  have hpair : sizeOf p = 1 + sizeOf p.1 + sizeOf p.2 := rfl
  simp only [obj.sizeOf_spec]
  omega

theorem sizeOf_item {items : List (Text × PyValue)} {i : Text × PyValue} (hi : i ∈ items) :
    sizeOf i.2 < sizeOf (PyValue.dict items) := by
  have hmem := List.sizeOf_lt_of_mem hi
  have hpair : sizeOf i = 1 + sizeOf i.1 + sizeOf i.2 := rfl
  simp only [dict.sizeOf_spec]
  omega

theorem sizeOf_elem {xs : List PyValue} {x : PyValue} (hx : x ∈ xs) : sizeOf x < sizeOf (PyValue.list xs) := by
  have hmem := List.sizeOf_lt_of_mem hx
  simp only [list.sizeOf_spec]
  omega

theorem sizeOf_component {xs : List PyValue} {x : PyValue} (hx : x ∈ xs) :
    sizeOf x < sizeOf (PyValue.tuple xs) := by
  have hmem := List.sizeOf_lt_of_mem hx
  simp only [tuple.sizeOf_spec]
  omega

theorem sizeOf_key {items : List (Text × PyValue)} {i : Text × PyValue} {keys : List PyValue} {k : PyValue}
    (hi : i ∈ items) (hkeys : i.2 = .list keys) (hk : k ∈ keys) : sizeOf k < sizeOf (PyValue.dict items) := by
  have hitem := sizeOf_item hi
  rw [hkeys] at hitem
  exact lt_trans (sizeOf_elem hk) hitem

/-- `Versioned.serialize` on an object, and the serialization of the value of a property. -/
def serialize (isPublic content : Bool) (v : PyValue) : Result PyValue :=
  match v with
  | .obj _ attrs => do
    let fields ← Fold.sequence (attrs.map fun p =>
      field p.1.name <$>
        if p.1.secret && isPublic then .ok .omitted else serialize isPublic p.1.content p.2)
    .ok (.dict (fields.filterMap id))
  | .dict items =>
    if content then do
      -- `serialize_content`: the entry of a pair of peers is a key, or a list of keys
      let entries ← Fold.sequence (items.map fun i => (i.1, ·) <$>
        match _ : i.2 with
        | .list keys => .list <$> Fold.sequence (keys.map fun k =>
            if k.isObj then serialize isPublic false k else .error (.attribute "serialize"))
        | k => if k.isObj then serialize isPublic false k else .error (.attribute "serialize"))
      .ok (.dict entries)
    else if items.head?.any fun i => i.2.isObj then
      sortedSerialized (items.map fun i => (i.2.objectId, serialize isPublic false i.2))
    else .ok (.dict items)
  | .list xs =>
    if xs.head?.any isObj then sortedSerialized (xs.map fun x => (x.objectId, serialize isPublic false x))
    else .ok (.list xs)
  | .tuple xs =>
    if xs.head?.any isObj then sortedSerialized (xs.map fun x => (x.objectId, serialize isPublic false x))
    else .ok (.tuple xs)
  | v => .ok v
  termination_by sizeOf v
  decreasing_by
    · exact sizeOf_attr (by assumption)
    · exact sizeOf_key (by assumption) (by assumption) (by assumption)
    · rename_i hi hk _
      rw [← hk]
      exact sizeOf_item hi
    · exact sizeOf_item (by assumption)
    · exact sizeOf_elem (by assumption)
    · exact sizeOf_component (by assumption)

/-! ### Stripping -/

theorem lawfulBEq_text : LawfulBEq Text := inferInstance

attribute [local instance] lawfulBEq_text in
/-- The fields that `strip_serialized_secrets` replaces, and their replacement. -/
def replaced (name : Text) : Bool :=
  name ∈ [['p', 'r', 'i', 'v', 'k', 'e', 'y'], ['p', 's', 'k'], ['p', 's', 'k', 's']]

def omittedText : Text := ['<', 'o', 'm', 'i', 't', 't', 'e', 'd', '>']

/-- `strip_serialized_secrets`, that is `strip_serialized_fields`, below a dictionary. -/
def stripSerializedSecrets (v : PyValue) : Result PyValue :=
  match v with
  | .dict items => do
    let fields ← Fold.sequence (items.map fun i =>
      (fun val => if val.dropped then Option.none else some (i.1, val)) <$>
        if replaced i.1 then .ok (.str omittedText) else stripSerializedSecrets i.2)
    .ok (.dict (fields.filterMap id))
  | .list xs =>
    if xs.head?.any isDict then
      .list <$> Fold.sequence (xs.map fun x =>
        if x.isDict then stripSerializedSecrets x else .error (.attribute "items"))
    else .ok (.list xs)
  | v => .ok v
  termination_by sizeOf v
  decreasing_by
    · exact sizeOf_item (by assumption)
    · exact sizeOf_elem (by assumption)

/-- `strip_unserializable`, below a dictionary. -/
def stripUnserializable (v : PyValue) : PyValue :=
  match v with
  | .dict items => .dict (items.map fun i => (i.1, stripUnserializable i.2))
  | .tuple xs => .list xs
  | .omitted => .none
  | v => v
  termination_by sizeOf v
  decreasing_by exact sizeOf_item (by assumption)

end PyValue

/-! ### Writing the document -/

/-- The scalars of a document. -/
inductive Leaf where
  | null
  | bool (b : Bool)
  | int (n : ℤ)
  | str (s : Text)
  deriving DecidableEq, Repr

/-- A YAML or JSON document. -/
inductive Doc where
  | leaf (l : Leaf)
  | seq (xs : List Doc)
  /-- `!!python/tuple`, in YAML only. -/
  | pyTuple (xs : List Doc)
  | map (items : List (Text × Doc))

namespace PyValue

open Fold

/-- `json.dumps` or `yaml.dump`: JSON has no encoding of the marker, YAML represents it as a null, and
neither can write an object, which holds its database connection. -/
def encode (json : Bool) (v : PyValue) : Result Doc :=
  match v with
  | .none => .ok (.leaf .null)
  | .bool b => .ok (.leaf (.bool b))
  | .int n => .ok (.leaf (.int n))
  | .str s => .ok (.leaf (.str s))
  | .omitted =>
    if json then .error (.type "Object of type _OmittedValue is not JSON serializable") else .ok (.leaf .null)
  | .list xs => .seq <$> Fold.sequence (xs.map fun x => encode json x)
  | .tuple xs => (if json then .seq else .pyTuple) <$> Fold.sequence (xs.map fun x => encode json x)
  | .dict items => .map <$> Fold.sequence (items.map fun i => (i.1, ·) <$> encode json i.2)
  | .obj _ _ => .error (.type "cannot serialize object")
  termination_by sizeOf v
  decreasing_by
    · exact sizeOf_elem (by assumption)
    · exact sizeOf_component (by assumption)
    · exact sizeOf_item (by assumption)

/-- `Versioned.yaml_dump` -/
def yamlDump (isPublic json : Bool) (v : PyValue) : Result Doc := do
  let val ← (if v.isObj then serialize isPublic false v else .ok v)
  let val ← (if isPublic && val.isDict then stripSerializedSecrets val else .ok val)
  encode json (if val.isDict then stripUnserializable val else val.listed)

end PyValue

end Uno
