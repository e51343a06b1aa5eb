import Uno.Registry.Dump

/-!
# Trees that a public dump writes

The walks of a public dump fail in three ways: an object is not where `serialize` looks for it
(`Serializable`), a list that starts with a dictionary holds something else, or a marker is left in a list
of a JSON document (`Dumpable`). On the other trees the dump succeeds (`stripsSerialized`, `strip_ok_iff`,
`encode_stripUnserializable_ok_iff`).
-/

namespace Uno

namespace PyValue

open Fold Except

/-! ### Documents that can be written -/

/-- The document can be written where `strip_unserializable` has, or has not, replaced the markers of
dictionaries. -/
def Emits (json inList : Bool) (v : PyValue) : Prop :=
  match v with
  | .omitted => (json && inList) = false
  | .list xs => ∀ x ∈ xs, Emits json true x
  | .tuple xs => ∀ x ∈ xs, Emits json true x
  | .dict items => ∀ i ∈ items, Emits json inList i.2
  | .obj _ _ => False
  | _ => True
  termination_by sizeOf v
  decreasing_by
    · exact sizeOf_elem (by assumption)
    · exact sizeOf_component (by assumption)
    · exact sizeOf_item (by assumption)

theorem encode_ok_iff (json : Bool) (v : PyValue) : (∃ d, encode json v = .ok d) ↔ Emits json true v := by
  fun_induction encode json v with
  | case7 xs ih | case9 items ih =>
    simp only [Emits, exists_map_eq_ok, exists_sequence]
    exact forall₂_congr ih
  | case8 xs ih =>
    simp only [Emits]
    rw [exists_map_eq_ok, exists_sequence]
    exact forall₂_congr ih
  | _ => simp_all [Emits]

theorem encode_stripUnserializable_ok_iff (json : Bool) (v : PyValue) :
    (∃ d, encode json (stripUnserializable v) = .ok d) ↔ Emits json false v := by
  fun_induction stripUnserializable v with
  | case1 items ih =>
    simp only [encode, Emits, List.map_map, exists_map_eq_ok, exists_sequence, Function.comp_apply]
    exact forall₂_congr ih
  | case2 xs =>
    simp only [encode_ok_iff, Emits]
  | case3 => simp [encode, Emits]
  | case4 v hdict htuple homitted =>
    rw [encode_ok_iff]
    cases v with
    | dict items => exact absurd rfl (hdict items)
    | tuple xs => exact absurd rfl (htuple xs)
    | omitted => exact absurd rfl homitted
    | _ => simp only [Emits]

/-! ### Dictionaries that survive the removal of secrets -/

/-- `strip_serialized_secrets` accepts the value, and leaves a document that can be written. -/
def Strips (json inList : Bool) (v : PyValue) : Prop :=
  match v with
  | .omitted => (json && inList) = false
  | .dict items => ∀ i ∈ items, replaced i.1 = false → Strips json inList i.2
  | .list xs =>
    if xs.head?.any isDict then ∀ x ∈ xs, x.isDict = true ∧ Strips json true x else ∀ x ∈ xs, Emits json true x
  | .tuple xs => ∀ x ∈ xs, Emits json true x
  | .obj _ _ => False
  | _ => True
  termination_by sizeOf v
  decreasing_by
    · exact sizeOf_item (by assumption)
    · exact sizeOf_elem (by assumption)

theorem emits_of_dropped {json inList : Bool} {v : PyValue} (h : v.dropped = true) : Emits json inList v := by
  cases v with
  | list xs | tuple xs | dict xs =>
    simp only [dropped, List.isEmpty_iff] at h
    simp [Emits, h]
  | _ => simp_all [Emits, dropped]

theorem isDict_of_strip {v val : PyValue} (hv : v.isDict = true) (h : stripSerializedSecrets v = .ok val) :
    val.isDict = true := by
  cases v with
  | dict items =>
    rw [stripSerializedSecrets, Except.bind_eq_ok_iff] at h
    obtain ⟨fields, -, heq⟩ := h
    cases heq
    rfl
  | _ => simp [isDict] at hv

/-- Either way, a list that is not empty and starts with a dictionary holds only dictionaries. -/
theorem strips_dicts {json inList : Bool} {xs : List PyValue} (hxs : ∀ x ∈ xs, x.isDict = true) :
    Strips json inList (.list xs) ↔ ∀ x ∈ xs, Strips json true x := by
  cases xs with
  | nil => simp [Strips]
  | cons x rest =>
    have hx := hxs x List.mem_cons_self
    rw [Strips, if_pos (by simpa using hx)]
    exact forall₂_congr fun y hy => and_iff_right (hxs y hy)

theorem strip_ok_iff (json inList : Bool) (v : PyValue) :
    (∃ val, stripSerializedSecrets v = .ok val ∧ Emits json inList val) ↔ Strips json inList v := by
  fun_induction stripSerializedSecrets v generalizing inList with
  | case1 items ih =>
    have hfield (name : Text) (val : PyValue) :
        (∀ i ∈ if val.dropped then Option.none else some (name, val), Emits json inList i.2) ↔
          Emits json inList val := by
      by_cases hdrop : val.dropped = true
      · simp [hdrop, emits_of_dropped hdrop]
      · simp [hdrop]
    have hfields : ∀ i ∈ items, (∃ y, (fun val => if val.dropped then Option.none else some (i.1, val)) <$>
        (if replaced i.1 then .ok (.str omittedText) else stripSerializedSecrets i.2) = Except.ok (ε := Exn) y ∧
          ∀ j ∈ y, Emits json inList j.2) ↔ (replaced i.1 = false → Strips json inList i.2) := by
      intro i hi
      simp only [exists_map_and, hfield]
      by_cases hrep : replaced i.1 = true
      · simp [hrep, Emits]
      · simp [hrep, ih i hi]
    rw [Strips, ← forall₂_congr hfields, ← exists_sequence_and]
    constructor
    · rintro ⟨val, hval, hemits⟩
      obtain ⟨fields, hfields, heq⟩ := Except.bind_eq_ok_iff.mp hval
      cases heq
      rw [Emits] at hemits
      refine ⟨fields, hfields, fun y hy j hj => hemits j ?_⟩
      rw [List.mem_filterMap]
      exact ⟨y, hy, hj⟩
    · rintro ⟨fields, hfields, hemits⟩
      refine ⟨_, Except.bind_eq_ok_iff.mpr ⟨fields, hfields, rfl⟩, ?_⟩
      rw [Emits]
      intro j hj
      obtain ⟨y, hy, hyj⟩ := List.mem_filterMap.mp hj
      exact hemits y hy j hyj
  | case2 xs hhead ih =>
    have helem : ∀ x ∈ xs, (∃ y, (if x.isDict then stripSerializedSecrets x
        else .error (.attribute "items")) = Except.ok y ∧ Emits json true y) ↔
          (x.isDict = true ∧ Strips json true x) := by
      intro x hx
      by_cases hdict : x.isDict = true
      · simp [hdict, ih x hx]
      · simp [hdict]
    rw [Strips, if_pos hhead, ← forall₂_congr helem, ← exists_sequence_and, exists_map_and]
    simp only [Emits]
  | case3 xs hhead => simp [Strips, Emits, hhead]
  | case4 v hdict hlist =>
    cases v with
    | dict items => exact absurd rfl (hdict items)
    | list xs => exact absurd rfl (hlist xs)
    | _ => simp [Strips, Emits]

/-! ### Trees that serialize -/

/-- The elements are objects, and their ids compare. -/
def Sortable (xs : List PyValue) : Prop :=
  (∀ x ∈ xs, x.isObj = true) ∧ (xs.length ≤ 1 ∨ ∀ x ∈ xs, x.objectId ≠ .ok Option.none)

theorem objectId_eq_ok {v : PyValue} {oid : Option DumpId} (h : v.objectId = .ok oid) : v.isObj = true := by
  cases v with
  | obj oid attrs => rfl
  | _ => simp [objectId] at h

theorem exists_objectId {v : PyValue} (h : v.isObj = true) : ∃ oid, v.objectId = .ok oid := by
  cases v with
  | obj oid attrs => exact ⟨oid, rfl⟩
  | _ => simp [isObj] at h

section Sorted

variable {α : Type} {g : α → PyValue} {ser : α → Result PyValue} {xs : List α}

theorem keyed_eq_ok {keyed : List (Option DumpId × Result PyValue)}
    (h : Fold.sequence (xs.map fun x => (·, ser x) <$> (g x).objectId) = .ok keyed) :
    (∀ x ∈ xs, ∃ oid, (g x).objectId = .ok oid ∧ (oid, ser x) ∈ keyed) ∧
      ∀ e ∈ keyed, ∃ x ∈ xs, (g x).objectId = .ok e.1 ∧ ser x = e.2 := by
  obtain ⟨hfrom, hto⟩ := mem_of_sequence h
  refine ⟨fun x hx => ?_, fun e he => ?_⟩
  · obtain ⟨e, he, hxe⟩ := hto x hx
    obtain ⟨oid, hoid, rfl⟩ := map_eq_ok_iff.mp hxe
    exact ⟨oid, hoid, he⟩
  · obtain ⟨x, hx, hxe⟩ := hfrom e he
    obtain ⟨oid, hoid, rfl⟩ := map_eq_ok_iff.mp hxe
    exact ⟨x, hx, hoid, rfl⟩

theorem sortable_iff {keyed : List (Option DumpId × Result PyValue)}
    (h : Fold.sequence (xs.map fun x => (·, ser x) <$> (g x).objectId) = .ok keyed) :
    Sortable (xs.map g) ↔ keyed.length ≤ 1 ∨ ∀ e ∈ keyed, e.1.isSome = true := by
  obtain ⟨hto, hfrom⟩ := keyed_eq_ok h
  have hobj : ∀ x ∈ xs.map g, x.isObj = true := by
    intro y hy
    obtain ⟨x, hx, rfl⟩ := List.mem_map.mp hy
    obtain ⟨oid, hoid, -⟩ := hto x hx
    exact objectId_eq_ok hoid
  rw [Sortable, and_iff_right hobj, List.length_map, length_of_sequence h]
  refine or_congr_right ⟨fun hne e he => ?_, fun hsome y hy hnone => ?_⟩
  · obtain ⟨x, hx, hoid, -⟩ := hfrom e he
    have hnone := hne (g x) (List.mem_map_of_mem hx)
    rw [hoid] at hnone
    exact Option.isSome_iff_ne_none.mpr fun hn => hnone (congrArg Except.ok hn)
  · obtain ⟨x, hx, rfl⟩ := List.mem_map.mp hy
    obtain ⟨oid, hoid, he⟩ := hto x hx
    rw [hnone] at hoid
    cases hoid
    simpa using hsome _ he

theorem sortedSerialized_eq_ok {v : PyValue}
    (h : sortedSerialized (xs.map fun x => ((g x).objectId, ser x)) = .ok v) :
    Sortable (xs.map g) ∧ ∃ ys, v = .list ys ∧ (∀ y ∈ ys, ∃ x ∈ xs, ser x = .ok y) ∧
      ∀ x ∈ xs, ∃ y ∈ ys, ser x = .ok y := by
  rw [sortedSerialized, List.map_map, Except.bind_eq_ok_iff] at h
  obtain ⟨keyed, hkeyed, h⟩ := h
  obtain ⟨hto, hfrom⟩ := keyed_eq_ok hkeyed
  split at h
  · rename_i hids
    obtain ⟨ys, hys, rfl⟩ := map_eq_ok_iff.mp h
    obtain ⟨hys, hys'⟩ := mem_of_sequence hys
    refine ⟨(sortable_iff hkeyed).mpr hids, ys, rfl, fun y hy => ?_, fun x hx => ?_⟩
    · obtain ⟨e, he, hey⟩ := hys y hy
      rw [List.mem_insertionSort] at he
      obtain ⟨x, hx, -, hxe⟩ := hfrom e he
      exact ⟨x, hx, hxe.trans hey⟩
    · obtain ⟨oid, -, he⟩ := hto x hx
      exact hys' _ ((List.mem_insertionSort _).mpr he)
  · cases h

theorem exists_sortedSerialized (hsort : Sortable (xs.map g)) (hser : ∀ x ∈ xs, ∃ y, ser x = .ok y) :
    ∃ v, sortedSerialized (xs.map fun x => ((g x).objectId, ser x)) = .ok v := by
  have hkeys : ∀ x ∈ xs, ∃ e, (·, ser x) <$> (g x).objectId = .ok e := by
    intro x hx
    obtain ⟨oid, hoid⟩ := exists_objectId (hsort.1 (g x) (List.mem_map_of_mem hx))
    exact ⟨(oid, ser x), map_eq_ok_iff.mpr ⟨oid, hoid, rfl⟩⟩
  obtain ⟨keyed, hkeyed⟩ := exists_sequence.mpr hkeys
  obtain ⟨-, hfrom⟩ := keyed_eq_ok hkeyed
  rw [sortedSerialized, List.map_map]
  simp only [Function.comp_def, hkeyed, Except.ok_bind]
  rw [if_pos ((sortable_iff hkeyed).mp hsort), exists_map_eq_ok, exists_sequence]
  intro e he
  rw [List.mem_insertionSort] at he
  obtain ⟨x, hx, -, hxe⟩ := hfrom e he
  rw [← hxe]
  exact hser x hx

end Sorted

/-- The keys in the entry of a pair of peers. -/
def entryKeys : PyValue → List PyValue
  | .list keys => keys
  | k => [k]

def isList : PyValue → Bool
  | .list _ => true
  | _ => false

theorem entryKeys_of_not_list {v : PyValue} (h : ∀ keys, v = .list keys → False) :
    entryKeys v = [v] ∧ v.isList = false := by
  cases v with
  | list keys => exact absurd rfl (h keys)
  | _ => exact ⟨rfl, rfl⟩

theorem sizeOf_entryKey {items : List (Text × PyValue)} {i : Text × PyValue} {k : PyValue} (hi : i ∈ items)
    (hk : k ∈ entryKeys i.2) : sizeOf k < sizeOf (PyValue.dict items) := by
  have hitem := sizeOf_item hi
  by_cases hlist : ∃ keys, i.2 = .list keys
  · obtain ⟨keys, hkeys⟩ := hlist
    rw [hkeys] at hk
    exact sizeOf_key hi hkeys hk
  · rw [(entryKeys_of_not_list fun keys hkeys => hlist ⟨keys, hkeys⟩).1, List.mem_singleton] at hk
    rw [hk]
    exact hitem

/-- The value of a property serializes. -/
def Serializable (content : Bool) (v : PyValue) : Prop :=
  match v with
  | .obj _ attrs => ∀ p ∈ attrs, p.1.secret = false → Serializable p.1.content p.2
  | .dict items =>
    if content then ∀ i ∈ items, ∀ k ∈ entryKeys i.2, k.isObj = true ∧ Serializable false k
    else if items.head?.any fun i => i.2.isObj then
      Sortable (items.map Prod.snd) ∧ ∀ i ∈ items, Serializable false i.2
    else True
  | .list xs => if xs.head?.any isObj then Sortable xs ∧ ∀ x ∈ xs, Serializable false x else True
  | .tuple xs => if xs.head?.any isObj then Sortable xs ∧ ∀ x ∈ xs, Serializable false x else True
  | _ => True
  termination_by sizeOf v
  decreasing_by
    · exact sizeOf_attr (by assumption)
    · exact sizeOf_entryKey (by assumption) (by assumption)
    · exact sizeOf_item (by assumption)
    · exact sizeOf_elem (by assumption)
    · exact sizeOf_component (by assumption)

theorem guarded_eq_ok {k val : PyValue} {x : Result PyValue} :
    (if k.isObj then x else .error (.attribute "serialize")) = .ok val ↔ k.isObj = true ∧ x = .ok val := by
  by_cases hk : k.isObj = true
  · simp [hk]
  · simp [hk]

theorem serialize_ok_iff (content : Bool) (v : PyValue) :
    (∃ val, serialize true content v = .ok val) ↔ Serializable content v := by
  fun_induction serialize true content v with
  | case1 content oid attrs ih =>
    have hbind : ∀ x : Result (List (Option (Text × PyValue))),
        (∃ val, (x >>= fun fields => .ok (dict (fields.filterMap id))) = .ok val) ↔ ∃ fields, x = .ok fields := by
      intro x
      cases x with
      | error e => simp
      | ok fields => simp
    rw [hbind, exists_sequence, Serializable]
    refine forall₂_congr fun p hp => ?_
    rw [exists_map_eq_ok]
    by_cases hsecret : p.1.secret = true
    · simp [hsecret]
    · simp [hsecret, ih p hp]
  | case2 items ihkeys ih =>
    have hbind : ∀ x : Result (List (Text × PyValue)),
        (∃ val, (x >>= fun entries => .ok (dict entries)) = .ok val) ↔ ∃ entries, x = .ok entries := by
      intro x
      cases x with
      | error e => simp
      | ok fields => simp
    rw [hbind, exists_sequence, Serializable, if_pos rfl]
    refine forall₂_congr fun i hi => ?_
    rw [exists_map_eq_ok]
    split
    · rename_i keys hkeys
      rw [exists_map_eq_ok, exists_sequence, hkeys]
      refine forall₂_congr fun k hk => ?_
      simp only [guarded_eq_ok, exists_and_left, ihkeys i hi keys hkeys k hk]
    · rename_i hlist
      simp only [(entryKeys_of_not_list hlist).1, List.forall_mem_singleton, guarded_eq_ok, exists_and_left,
        ih i hi i.2 rfl]
  | case3 content items hcontent hhead ih =>
    rw [Serializable, if_neg hcontent, if_pos hhead, ← forall₂_congr ih]
    constructor
    · rintro ⟨val, hval⟩
      obtain ⟨hsort, ys, -, -, hys⟩ := sortedSerialized_eq_ok hval
      exact ⟨hsort, fun i hi => (hys i hi).imp fun y hy => hy.2⟩
    · rintro ⟨hsort, hser⟩
      exact exists_sortedSerialized hsort hser
  | case5 content xs hhead ih | case7 content xs hhead ih =>
    rw [Serializable, if_pos hhead, ← forall₂_congr ih]
    constructor
    · rintro ⟨val, hval⟩
      obtain ⟨hsort, ys, -, -, hys⟩ := sortedSerialized_eq_ok hval
      rw [List.map_id'] at hsort
      exact ⟨hsort, fun x hx => (hys x hx).imp fun y hy => hy.2⟩
    · rintro ⟨hsort, hser⟩
      exact exists_sortedSerialized (by rwa [List.map_id']) hser
  | case4 content items hcontent hhead => simp [Serializable, hcontent, hhead]
  | case6 content xs hhead | case8 content xs hhead => simp [Serializable, hhead]
  | case9 content v hobj hdict hlist htuple =>
    cases v with
    | obj oid attrs => exact absurd rfl (hobj oid attrs)
    | dict items => exact absurd rfl (hdict items)
    | list xs => exact absurd rfl (hlist xs)
    | tuple xs => exact absurd rfl (htuple xs)
    | _ => simp [Serializable]

/-- The value of a property is written by a public dump. -/
def Dumpable (json inList content : Bool) (v : PyValue) : Prop :=
  match v with
  | .obj _ attrs => ∀ p ∈ attrs, replaced p.1.name = false →
    if p.1.secret then (json && inList) = false else Dumpable json inList p.1.content p.2
  | .dict items =>
    if content then
      ∀ i ∈ items, replaced i.1 = false → ∀ k ∈ entryKeys i.2, Dumpable json (inList || i.2.isList) false k
    else if items.head?.any fun i => i.2.isObj then ∀ i ∈ items, Dumpable json true false i.2
    else Strips json inList (.dict items)
  | .list xs => if xs.head?.any isObj then ∀ x ∈ xs, Dumpable json true false x else Strips json inList (.list xs)
  | .tuple xs => if xs.head?.any isObj then ∀ x ∈ xs, Dumpable json true false x else Strips json inList (.list xs)
  | v => Strips json inList v
  termination_by sizeOf v
  decreasing_by
    · exact sizeOf_attr (by assumption)
    · exact sizeOf_entryKey (by assumption) (by assumption)
    · exact sizeOf_item (by assumption)
    · exact sizeOf_elem (by assumption)
    · exact sizeOf_component (by assumption)

theorem isDict_of_serialize {isPublic content : Bool} {v val : PyValue} (hv : v.isObj = true)
    (h : serialize isPublic content v = .ok val) : val.isDict = true := by
  cases v with
  | obj oid attrs =>
    rw [serialize, Except.bind_eq_ok_iff] at h
    obtain ⟨fields, -, heq⟩ := h
    cases heq
    rfl
  | _ => simp [isObj] at hv

theorem listed_of_isDict {v : PyValue} (h : v.isDict = true) : v.listed = v := by
  cases v with
  | dict items => rfl
  | _ => simp [isDict] at h

theorem strips_field {json inList : Bool} (name : Text) (v : PyValue) :
    (∀ j ∈ field name v, replaced j.1 = false → Strips json inList j.2) ↔
      (replaced name = false → Strips json inList v.listed) := by
  cases v with
  | none => simp [field, listed, Strips]
  | _ => simp [field, listed]

/-- A value serializes, and the result strips, exactly when the tree is well placed. -/
def StripsSerialized (json content : Bool) (v : PyValue) : Prop :=
  ∀ inList, (∃ val, serialize true content v = .ok val ∧ Strips json inList val.listed) ↔
    Serializable content v ∧ Dumpable json inList content v

theorem strips_objects {json inList : Bool} {α : Type} {g : α → PyValue} {xs : List α} {ys : List PyValue}
    (hobj : ∀ x ∈ xs, (g x).isObj = true) (hys : ∀ y ∈ ys, ∃ x ∈ xs, serialize true false (g x) = .ok y) :
    Strips json inList (.list ys) ↔ ∀ y ∈ ys, Strips json true y.listed := by
  have hdict : ∀ y ∈ ys, y.isDict = true := by
    intro y hy
    obtain ⟨x, hx, hxy⟩ := hys y hy
    exact isDict_of_serialize (hobj x hx) hxy
  rw [strips_dicts hdict]
  exact forall₂_congr fun y hy => by rw [listed_of_isDict (hdict y hy)]

theorem strips_sortedSerialized {json inList : Bool} {α : Type} {g : α → PyValue} {xs : List α}
    (ih : ∀ x ∈ xs, StripsSerialized json false (g x)) :
    (∃ val, sortedSerialized (xs.map fun x => ((g x).objectId, serialize true false (g x))) = .ok val ∧
        Strips json inList val.listed) ↔
      (Sortable (xs.map g) ∧ ∀ x ∈ xs, Serializable false (g x)) ∧ ∀ x ∈ xs, Dumpable json true false (g x) := by
  have hobj (hsort : Sortable (xs.map g)) : ∀ x ∈ xs, (g x).isObj = true := fun x hx =>
    hsort.1 _ (List.mem_map_of_mem hx)
  constructor
  · rintro ⟨val, hval, hstrips⟩
    obtain ⟨hsort, ys, rfl, hfrom, hto⟩ := sortedSerialized_eq_ok hval
    have hdicts := (strips_objects (hobj hsort) hfrom).mp hstrips
    have hboth : ∀ x ∈ xs, Serializable false (g x) ∧ Dumpable json true false (g x) := by
      intro x hx
      obtain ⟨y, hy, hxy⟩ := hto x hx
      exact (ih x hx true).mp ⟨y, hxy, hdicts y hy⟩
    exact ⟨⟨hsort, fun x hx => (hboth x hx).1⟩, fun x hx => (hboth x hx).2⟩
  · rintro ⟨⟨hsort, hser⟩, hdump⟩
    obtain ⟨val, hval⟩ := exists_sortedSerialized hsort fun x hx => (serialize_ok_iff _ _).mpr (hser x hx)
    obtain ⟨-, ys, rfl, hfrom, hto⟩ := sortedSerialized_eq_ok hval
    refine ⟨_, hval, (strips_objects (hobj hsort) hfrom).mpr fun y hy => ?_⟩
    obtain ⟨x, hx, hxy⟩ := hfrom y hy
    obtain ⟨y', hxy', hstrips⟩ := (ih x hx true).mpr ⟨hser x hx, hdump x hx⟩
    rw [hxy] at hxy'
    cases hxy'
    exact hstrips

theorem strips_keys {json inList : Bool} {keys : List PyValue} (ih : ∀ k ∈ keys, StripsSerialized json false k) :
    (∃ r, Fold.sequence (keys.map fun k => if k.isObj then serialize true false k else .error (.attribute "serialize"))
        = .ok r ∧ Strips json inList (.list r)) ↔
      (∀ k ∈ keys, k.isObj = true ∧ Serializable false k) ∧ ∀ k ∈ keys, Dumpable json true false k := by
  rw [← forall₂_and]
  have hkey : ∀ k ∈ keys, ((k.isObj = true ∧ Serializable false k) ∧ Dumpable json true false k ↔
      ∃ y, (if k.isObj then serialize true false k else .error (.attribute "serialize")) = .ok y ∧
        Strips json true y.listed) := by
    intro k hk
    simp only [guarded_eq_ok, and_assoc, exists_and_left]
    rw [ih k hk true]
  rw [forall₂_congr hkey, ← exists_sequence_and]
  refine exists_congr fun r => and_congr_right fun hr => ?_
  refine @strips_objects _ _ _ id (keys.filter isObj) _ (by simp) fun y hy => ?_
  obtain ⟨k, hk, hky⟩ := (mem_of_sequence hr).1 y hy
  rw [guarded_eq_ok] at hky
  exact ⟨k, List.mem_filter.mpr ⟨hk, hky.1⟩, hky.2⟩

theorem stripsSerialized (json content : Bool) (v : PyValue) : StripsSerialized json content v := by
  fun_induction serialize true content v with
  | case1 content oid attrs ih =>
    intro inList
    have hfields (x : Result (List (Option (Text × PyValue)))) :
        (∃ val, (x >>= fun fields => .ok (dict (fields.filterMap id))) = .ok val ∧ Strips json inList val.listed) ↔
          ∃ fields, x = .ok fields ∧ ∀ y ∈ fields, ∀ j ∈ y, replaced j.1 = false → Strips json inList j.2 := by
      cases x with
      | error e => simp
      | ok fields =>
        simp only [Except.ok_bind, Except.ok.injEq, exists_eq_left', listed, Strips, List.mem_filterMap]
        exact ⟨fun h y hy j hj => h j ⟨y, hy, hj⟩, fun h j hj => hj.elim fun y hy => h y hy.1 j hy.2⟩
    rw [serialize, Serializable, Dumpable, hfields, exists_sequence_and, ← forall₂_and]
    refine forall₂_congr fun p hp => ?_
    simp only [exists_map_and, strips_field]
    by_cases hsecret : p.1.secret = true
    · simp [hsecret, listed, Strips]
    · by_cases hrep : replaced p.1.name = true
      · simp [hsecret, hrep, serialize_ok_iff]
      · simpa [hsecret, hrep] using ih p hp inList
  | case2 items ihkeys ih =>
    intro inList
    have hentries (x : Result (List (Text × PyValue))) :
        (∃ val, (x >>= fun entries => .ok (dict entries)) = .ok val ∧ Strips json inList val.listed) ↔
          ∃ entries, x = .ok entries ∧ ∀ y ∈ entries, replaced y.1 = false → Strips json inList y.2 := by
      cases x with
      | error e => simp
      | ok entries => simp [listed, Strips]
    rw [serialize, Serializable, Dumpable, if_pos rfl, if_pos rfl, if_pos rfl, hentries, exists_sequence_and,
      ← forall₂_and]
    refine forall₂_congr fun i hi => ?_
    rw [exists_map_and]
    split
    · rename_i keys hkeys
      rw [exists_map_and, hkeys]
      by_cases hrep : replaced i.1 = true
      · simp [hrep, entryKeys, exists_sequence, guarded_eq_ok, serialize_ok_iff]
      · simpa [hrep, entryKeys, isList] using @strips_keys json inList _ (ihkeys i hi keys hkeys)
    · rename_i hlist
      rw [(entryKeys_of_not_list hlist).1, (entryKeys_of_not_list hlist).2]
      simp only [List.forall_mem_singleton, guarded_eq_ok, Bool.or_false, and_assoc, exists_and_left]
      refine and_congr_right fun hobj => ?_
      by_cases hrep : replaced i.1 = true
      · simp [hrep, serialize_ok_iff]
      · simp only [hrep, forall_const]
        rw [← ih i hi i.2 rfl inList]
        refine exists_congr fun val => and_congr_right fun hval => ?_
        rw [listed_of_isDict (isDict_of_serialize hobj hval)]
  | case3 content items hcontent hhead ih =>
    intro inList
    rw [serialize, Serializable, Dumpable, if_neg hcontent, if_neg hcontent, if_neg hcontent, if_pos hhead,
      if_pos hhead, if_pos hhead]
    exact strips_sortedSerialized ih
  | case5 content xs hhead ih | case7 content xs hhead ih =>
    intro inList
    rw [serialize, Serializable, Dumpable, if_pos hhead, if_pos hhead, if_pos hhead]
    have hcoll := @strips_sortedSerialized json inList _ id _ ih
    rwa [List.map_id] at hcoll
  | case4 content items hcontent hhead =>
    intro inList
    simp [serialize, Serializable, Dumpable, hcontent, hhead, listed]
  | case6 content xs hhead | case8 content xs hhead =>
    intro inList
    simp [serialize, Serializable, Dumpable, hhead, listed]
  | case9 content v hobj hdict hlist htuple =>
    intro inList
    cases v with
    | obj oid attrs => exact absurd rfl (hobj oid attrs)
    | dict items => exact absurd rfl (hdict items)
    | list xs => exact absurd rfl (hlist xs)
    | tuple xs => exact absurd rfl (htuple xs)
    | _ => simp [serialize, Serializable, Dumpable, listed]

end PyValue

end Uno
