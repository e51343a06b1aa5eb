import Uno.Registry.Dumpable

/-!
# What public dumps disclose

A public dump writes no secret: it is a function of the tree with its secrets erased (`yamlDump_hide`),
and its scalars are among those of that tree (`holds_of_yamlDump`).
-/

namespace Uno

namespace PyValue

open Fold Except

/-! ### Independence of the secrets -/

/-- The tree with the values of its secret properties erased. -/
def hide (v : PyValue) : PyValue :=
  match v with
  | .list xs => .list (xs.map fun x => hide x)
  | .tuple xs => .tuple (xs.map fun x => hide x)
  | .dict items => .dict (items.map fun i => (i.1, hide i.2))
  | .obj oid attrs => .obj oid (attrs.map fun p => (p.1, if p.1.secret then .none else hide p.2))
  | v => v
  termination_by sizeOf v
  decreasing_by
    · exact sizeOf_elem (by assumption)
    · exact sizeOf_component (by assumption)
    · exact sizeOf_item (by assumption)
    · exact sizeOf_attr (by assumption)

@[simp] theorem isObj_hide (v : PyValue) : v.hide.isObj = v.isObj := by
  cases v <;> simp [hide, isObj]

@[simp] theorem isDict_hide (v : PyValue) : v.hide.isDict = v.isDict := by
  cases v <;> simp [hide, isDict]

@[simp] theorem objectId_hide (v : PyValue) : v.hide.objectId = v.objectId := by
  cases v <;> simp [hide, objectId]

@[simp] theorem dropped_hide (v : PyValue) : v.hide.dropped = v.dropped := by
  cases v <;> simp [hide, dropped]

theorem listed_hide (v : PyValue) : v.hide.listed = v.listed.hide := by
  cases v <;> simp [hide, listed]

theorem field_hide (name : Text) (v : PyValue) :
    field name v.hide = (field name v).map fun j => (j.1, j.2.hide) := by
  cases v <;> simp [hide, field, listed]

theorem hide_ne_list {v : PyValue} (h : ∀ xs, v = .list xs → False) (xs : List PyValue) : v.hide ≠ .list xs := by
  cases v with
  | list ys => exact absurd rfl (h ys)
  | _ => simp [hide]

theorem head_hide (xs : List PyValue) (f : PyValue → Bool) (hf : ∀ v, f v.hide = f v) :
    (xs.map hide).head?.any f = xs.head?.any f := by
  cases xs with
  | nil => rfl
  | cons x rest => simp [hf]

theorem sortedSerialized_hide (entries : List (Result (Option DumpId) × Result PyValue)) :
    sortedSerialized (entries.map fun e => (e.1, hide <$> e.2)) = hide <$> sortedSerialized entries := by
  have hkeyed : Fold.sequence ((entries.map fun e => (e.1, hide <$> e.2)).map fun e => (·, e.2) <$> e.1) =
      List.map (fun e => (e.1, hide <$> e.2)) <$> Fold.sequence (entries.map fun e => (·, e.2) <$> e.1) := by
    refine sequence_congr fun e _ => ?_
    cases e.1 <;> rfl
  rw [sortedSerialized, sortedSerialized, hkeyed]
  cases Fold.sequence (entries.map fun e => (·, e.2) <$> e.1) with
  | error e => rfl
  | ok keyed =>
    simp only [Except.map_ok, Except.ok_bind, List.length_map, List.forall_mem_map]
    by_cases hids : keyed.length ≤ 1 ∨ ∀ e ∈ keyed, e.1.isSome = true
    · have hsort : (keyed.map fun e => (e.1, hide <$> e.2)).insertionSort (fun a b => idLe a.1 b.1) =
          (keyed.insertionSort fun a b => idLe a.1 b.1).map fun e => (e.1, hide <$> e.2) := by
        symm
        apply List.map_insertionSort
        exact fun a _ b _ => Iff.rfl
      rw [if_pos hids, if_pos hids, hsort]
      have hvals : Fold.sequence (((keyed.insertionSort fun a b => idLe a.1 b.1).map fun e => (e.1, hide <$> e.2)).map
          fun e => e.2) = List.map hide <$> Fold.sequence ((keyed.insertionSort fun a b => idLe a.1 b.1).map fun e => e.2) :=
        sequence_congr fun e _ => rfl
      rw [hvals]
      cases Fold.sequence ((keyed.insertionSort fun a b => idLe a.1 b.1).map Prod.snd) with
      | error e => rfl
      | ok ys => simp [hide]
    · rw [if_neg hids, if_neg hids]
      rfl

theorem hide_fields (x : Result (List (Option (Text × PyValue)))) :
    ((List.map (Option.map fun j => (j.1, hide j.2)) <$> x) >>= fun fs => .ok (dict (fs.filterMap id))) =
      hide <$> (x >>= fun fs => .ok (dict (fs.filterMap id))) := by
  cases x with
  | error e => rfl
  | ok fs =>
    simp only [Except.map_ok, Except.ok_bind, hide, List.filterMap_map, List.map_filterMap]
    rfl

theorem serialize_hide (content : Bool) (v : PyValue) :
    serialize true content v.hide = hide <$> serialize true content v := by
  fun_induction serialize true content v with
  | case1 content oid attrs ih =>
    rw [hide, serialize, ← hide_fields]
    congr 1
    refine sequence_congr fun p hp => ?_
    by_cases hsecret : p.1.secret = true
    · simp [hsecret, field, listed, hide]
    · simp only [hsecret, Bool.false_and, Bool.false_eq_true, if_false]
      rw [ih p hp]
      cases serialize true p.1.content p.2 with
      | error e => rfl
      | ok val => simp [field_hide]
  | case2 items ihkeys ih =>
    have hdict (x : Result (List (Text × PyValue))) :
        ((List.map (fun i => (i.1, hide i.2)) <$> x) >>= fun entries => .ok (dict entries)) =
          hide <$> (x >>= fun entries => .ok (dict entries)) := by
      cases x with
      | error e => rfl
      | ok entries => simp [hide]
    rw [hide, serialize, if_pos rfl, ← hdict]
    congr 1
    refine sequence_congr fun i hi => ?_
    have hkey (k : PyValue) (hk : serialize true false k.hide = hide <$> serialize true false k) :
        (if k.hide.isObj then serialize true false k.hide else .error (.attribute "serialize")) =
          hide <$> (if k.isObj then serialize true false k else .error (.attribute "serialize")) := by
      by_cases hobj : k.isObj = true
      · simp [hobj, hk]
      · simp [hobj]
    split
    · rename_i keys' hkeys'
      split
      · rename_i keys hkeys
        simp only [hkeys, hide, list.injEq] at hkeys'
        rw [← hkeys', sequence_congr fun k hk => hkey k (ihkeys i hi keys hkeys k hk)]
        cases Fold.sequence (keys.map fun k =>
          if k.isObj then serialize true false k else .error (.attribute "serialize")) with
        | error e => rfl
        | ok ys => simp [hide]
      · rename_i hlist
        exact absurd hkeys' (hide_ne_list hlist keys')
    · rename_i hlist'
      dsimp only at hlist' ⊢
      rw [hkey i.2 (ih i hi i.2 rfl)]
      generalize hser : (if i.2.isObj then serialize true false i.2 else .error (.attribute "serialize")) = ser
      split
      · rename_i keys hkeys
        rw [hkeys, hide] at hlist'
        exact absurd rfl (hlist' (keys.map hide))
      · rw [hser]
        cases ser with
        | error e => rfl
        | ok val => rfl
  | case3 content items hcontent hhead ih =>
    have hhead' : (items.map fun i => (i.1, hide i.2)).head?.any (fun i => i.2.isObj) = true := by
      cases items with
      | nil => exact hhead
      | cons i rest => simpa using hhead
    rw [hide, serialize, if_neg hcontent, if_pos hhead', ← sortedSerialized_hide, List.map_map, List.map_map]
    congr 1
    refine List.map_congr_left fun i hi => ?_
    simp only [Function.comp_apply, objectId_hide]
    rw [ih i hi]
  | case5 content xs hhead ih | case7 content xs hhead ih =>
    rw [hide, serialize, head_hide xs isObj isObj_hide, if_pos hhead, ← sortedSerialized_hide, List.map_map,
      List.map_map]
    congr 1
    refine List.map_congr_left fun x hx => ?_
    simp only [Function.comp_apply, objectId_hide]
    rw [ih x hx]
  | case4 content items hcontent hhead =>
    have hhead' : ¬ (items.map fun i => (i.1, hide i.2)).head?.any (fun i => i.2.isObj) = true := by
      cases items with
      | nil => exact hhead
      | cons i rest => simpa using hhead
    rw [hide, serialize, if_neg hcontent, if_neg hhead']
    simp [hide]
  | case6 content xs hhead | case8 content xs hhead =>
    rw [hide, serialize, head_hide xs isObj isObj_hide, if_neg hhead]
    simp [hide]
  | case9 content v hobj hdict hlist htuple =>
    cases v with
    | obj oid attrs => exact absurd rfl (hobj oid attrs)
    | dict items => exact absurd rfl (hdict items)
    | list xs => exact absurd rfl (hlist xs)
    | tuple xs => exact absurd rfl (htuple xs)
    | _ => simp [serialize, hide]

theorem stripSerializedSecrets_hide (v : PyValue) :
    stripSerializedSecrets v.hide = hide <$> stripSerializedSecrets v := by
  fun_induction stripSerializedSecrets v with
  | case1 items ih =>
    rw [hide, stripSerializedSecrets, ← hide_fields]
    congr 1
    refine sequence_congr fun i hi => ?_
    by_cases hrep : replaced i.1 = true
    · simp [hrep, dropped, omittedText, hide]
    · simp only [hrep, Bool.false_eq_true, if_false]
      rw [ih i hi]
      cases stripSerializedSecrets i.2 with
      | error e => rfl
      | ok val =>
        simp only [Except.map_ok, dropped_hide]
        by_cases hdrop : val.dropped = true
        · simp [hdrop]
        · simp [hdrop]
  | case2 xs hhead ih =>
    have hlist (x : Result (List PyValue)) : list <$> (List.map hide <$> x) = hide <$> (list <$> x) := by
      cases x with
      | error e => rfl
      | ok ys => simp [hide]
    rw [hide, stripSerializedSecrets, head_hide xs isDict isDict_hide, if_pos hhead, ← hlist]
    congr 1
    refine sequence_congr fun x hx => ?_
    by_cases hdict : x.isDict = true
    · simp [hdict, ih x hx]
    · simp [hdict]
  | case3 xs hhead =>
    rw [hide, stripSerializedSecrets, head_hide xs isDict isDict_hide, if_neg hhead]
    simp [hide]
  | case4 v hdict hlist =>
    cases v with
    | dict items => exact absurd rfl (hdict items)
    | list xs => exact absurd rfl (hlist xs)
    | _ => simp [stripSerializedSecrets, hide]

theorem stripUnserializable_hide (v : PyValue) : stripUnserializable v.hide = (stripUnserializable v).hide := by
  fun_induction stripUnserializable v with
  | case1 items ih =>
    simp only [hide, stripUnserializable, List.map_map]
    congr 1
    refine List.map_congr_left fun i hi => ?_
    simp only [Function.comp_apply]
    rw [ih i hi]
  | case2 xs => simp [hide, stripUnserializable]
  | case3 => simp [hide, stripUnserializable]
  | case4 v hdict htuple homitted =>
    cases v with
    | dict items => exact absurd rfl (hdict items)
    | tuple xs => exact absurd rfl (htuple xs)
    | omitted => exact absurd rfl homitted
    | _ => simp [hide, stripUnserializable]

theorem encode_hide (json : Bool) (v : PyValue) : encode json v.hide = encode json v := by
  fun_induction encode json v with
  | case7 xs ih | case8 xs ih =>
    rw [hide, encode, List.map_map]
    congr 2
    exact List.map_congr_left ih
  | case9 items ih =>
    rw [hide, encode, List.map_map]
    congr 2
    refine List.map_congr_left fun i hi => ?_
    simp only [Function.comp_apply]
    rw [ih i hi]
  | _ => simp_all [hide, encode]

/-- A public dump does not depend on the secrets of the tree. -/
theorem yamlDump_hide (json : Bool) (v : PyValue) : yamlDump true json v.hide = yamlDump true json v := by
  have hwrite (val : PyValue) :
      encode json (if val.hide.isDict then stripUnserializable val.hide else val.hide.listed) =
        encode json (if val.isDict then stripUnserializable val else val.listed) := by
    rw [isDict_hide, stripUnserializable_hide, listed_hide, ← apply_ite hide, encode_hide]
  have hstrip (val : PyValue) :
      (if val.hide.isDict then stripSerializedSecrets val.hide else .ok val.hide) =
        hide <$> (if val.isDict then stripSerializedSecrets val else .ok val) := by
    rw [isDict_hide, stripSerializedSecrets_hide]
    split <;> rfl
  have hser : (if v.hide.isObj then serialize true false v.hide else .ok v.hide) =
      hide <$> (if v.isObj then serialize true false v else .ok v) := by
    rw [isObj_hide, serialize_hide]
    split <;> rfl
  simp only [yamlDump, Bool.true_and]
  rw [hser]
  cases (if v.isObj then serialize true false v else .ok v) with
  | error e => rfl
  | ok val =>
    simp only [Except.map_ok, Except.ok_bind]
    rw [hstrip]
    cases (if val.isDict then stripSerializedSecrets val else .ok val) with
    | error e => rfl
    | ok val' => exact hwrite val'

/-! ### The scalars of a dump -/

/-- The scalar occurs in the tree, as a value or as a key. -/
def Holds (l : Leaf) (v : PyValue) : Prop :=
  match v with
  | .none => l = .null
  | .bool b => l = .bool b
  | .int n => l = .int n
  | .str s => l = .str s
  | .omitted => False
  | .list xs => ∃ x, ∃ _ : x ∈ xs, Holds l x
  | .tuple xs => ∃ x, ∃ _ : x ∈ xs, Holds l x
  | .dict items => ∃ i, ∃ _ : i ∈ items, l = .str i.1 ∨ Holds l i.2
  | .obj _ attrs => ∃ p, ∃ _ : p ∈ attrs, l = .str p.1.name ∨ Holds l p.2
  termination_by sizeOf v
  decreasing_by
    · exact sizeOf_elem (by assumption)
    · exact sizeOf_component (by assumption)
    · exact sizeOf_item (by assumption)
    · exact sizeOf_attr (by assumption)

theorem holds_listed {l : Leaf} {v : PyValue} (h : Holds l v.listed) : Holds l v := by
  cases v with
  | tuple xs =>
    rw [listed, Holds] at h
    rw [Holds]
    exact h
  | _ => exact h

theorem holds_field {l : Leaf} {name : Text} {v : PyValue} {j : Text × PyValue} (hj : j ∈ field name v) :
    j.1 = name ∧ (Holds l j.2 → Holds l v) := by
  cases v with
  | none => simp [field] at hj
  | _ =>
    simp only [field, Option.mem_def, Option.some.injEq] at hj
    rw [← hj]
    exact ⟨rfl, fun h => holds_listed h⟩

theorem holds_serialize {l : Leaf} {isPublic content : Bool} {v val : PyValue}
    (h : serialize isPublic content v = .ok val) (hval : Holds l val) : Holds l v := by
  fun_induction serialize isPublic content v generalizing val with
  | case1 content oid attrs ih =>
    obtain ⟨fields, hfields, heq⟩ := Except.bind_eq_ok_iff.mp h
    cases heq
    rw [Holds] at hval
    obtain ⟨j, hj, hl⟩ := hval
    obtain ⟨y, hy, hyj⟩ := List.mem_filterMap.mp hj
    obtain ⟨p, hp, hpy⟩ := (mem_of_sequence hfields).1 y hy
    obtain ⟨val, hval, rfl⟩ := map_eq_ok_iff.mp hpy
    obtain ⟨hname, hheld⟩ := holds_field (l := l) hyj
    rw [Holds]
    refine ⟨p, hp, hl.imp (fun hl => by rw [hl, hname]) fun hl => ?_⟩
    split at hval
    · cases hval
      simpa [Holds] using hheld hl
    · exact ih p hp hval (hheld hl)
  | case2 items ihkeys ih =>
    obtain ⟨entries, hentries, heq⟩ := Except.bind_eq_ok_iff.mp h
    cases heq
    rw [Holds] at hval
    obtain ⟨j, hj, hl⟩ := hval
    obtain ⟨i, hi, hij⟩ := (mem_of_sequence hentries).1 j hj
    obtain ⟨val, hval, rfl⟩ := map_eq_ok_iff.mp hij
    rw [Holds]
    refine ⟨i, hi, hl.imp_right fun hl => ?_⟩
    split at hval
    · rename_i keys hkeys
      obtain ⟨ys, hys, rfl⟩ := map_eq_ok_iff.mp hval
      rw [Holds] at hl
      obtain ⟨y, hy, hl⟩ := hl
      obtain ⟨k, hk, hky⟩ := (mem_of_sequence hys).1 y hy
      rw [hkeys, Holds]
      exact ⟨k, hk, ihkeys i hi keys hkeys k hk (guarded_eq_ok.mp hky).2 hl⟩
    · exact ih i hi i.2 rfl (guarded_eq_ok.mp hval).2 hl
  | case3 content items hcontent hhead ih =>
    obtain ⟨-, ys, rfl, hfrom, -⟩ := sortedSerialized_eq_ok h
    rw [Holds] at hval
    obtain ⟨y, hy, hl⟩ := hval
    obtain ⟨i, hi, hiy⟩ := hfrom y hy
    rw [Holds]
    exact ⟨i, hi, .inr (ih i hi hiy hl)⟩
  | case5 content xs hhead ih | case7 content xs hhead ih =>
    obtain ⟨-, ys, rfl, hfrom, -⟩ := sortedSerialized_eq_ok (g := id) h
    rw [Holds] at hval
    obtain ⟨y, hy, hl⟩ := hval
    obtain ⟨x, hx, hxy⟩ := hfrom y hy
    rw [Holds]
    exact ⟨x, hx, ih x hx hxy hl⟩
  | _ =>
    cases h
    exact hval

theorem holds_stripSerializedSecrets {l : Leaf} {v val : PyValue} (h : stripSerializedSecrets v = .ok val)
    (hval : Holds l val) : Holds l v ∨ l = .str omittedText := by
  fun_induction stripSerializedSecrets v generalizing val with
  | case1 items ih =>
    obtain ⟨fields, hfields, heq⟩ := Except.bind_eq_ok_iff.mp h
    cases heq
    rw [Holds] at hval
    obtain ⟨j, hj, hl⟩ := hval
    obtain ⟨y, hy, hyj⟩ := List.mem_filterMap.mp hj
    obtain ⟨i, hi, hiy⟩ := (mem_of_sequence hfields).1 y hy
    obtain ⟨val, hval, rfl⟩ := map_eq_ok_iff.mp hiy
    by_cases hdrop : val.dropped = true
    · simp [hdrop] at hyj
    · simp only [hdrop, Bool.false_eq_true, if_false, id_eq, Option.some.injEq] at hyj
      subst hyj
      rw [Holds]
      rcases hl with hl | hl
      · exact .inl ⟨i, hi, .inl hl⟩
      · split at hval
        · cases hval
          rw [Holds] at hl
          exact .inr hl
        · exact (ih i hi hval hl).imp_left fun hl => ⟨i, hi, .inr hl⟩
  | case2 xs hhead ih =>
    obtain ⟨ys, hys, rfl⟩ := map_eq_ok_iff.mp h
    rw [Holds] at hval
    obtain ⟨y, hy, hl⟩ := hval
    obtain ⟨x, hx, hxy⟩ := (mem_of_sequence hys).1 y hy
    split at hxy
    · rw [Holds]
      exact (ih x hx hxy hl).imp_left fun hl => ⟨x, hx, hl⟩
    · cases hxy
  | _ =>
    cases h
    exact .inl hval

theorem holds_stripUnserializable {l : Leaf} {v : PyValue} (h : Holds l (stripUnserializable v)) :
    Holds l v ∨ l = .null := by
  fun_induction stripUnserializable v with
  | case1 items ih =>
    rw [Holds] at h ⊢
    obtain ⟨j, hj, hl⟩ := h
    obtain ⟨i, hi, rfl⟩ := List.mem_map.mp hj
    rcases hl with hl | hl
    · exact .inl ⟨i, hi, .inl hl⟩
    · exact (ih i hi hl).imp_left fun hl => ⟨i, hi, .inr hl⟩
  | case2 xs =>
    rw [Holds] at h
    rw [Holds]
    exact .inl h
  | case3 =>
    rw [Holds] at h
    exact .inr h
  | case4 v hdict htuple homitted => exact .inl h

end PyValue

/-- The scalar occurs in the document. -/
def Doc.Holds (l : Leaf) (d : Doc) : Prop :=
  match d with
  | .leaf l' => l = l'
  | .seq xs => ∃ x, ∃ _ : x ∈ xs, Doc.Holds l x
  | .pyTuple xs => ∃ x, ∃ _ : x ∈ xs, Doc.Holds l x
  | .map items => ∃ i, ∃ _ : i ∈ items, l = .str i.1 ∨ Doc.Holds l i.2
  termination_by sizeOf d
  decreasing_by
    · have hmem := List.sizeOf_lt_of_mem (by assumption)
      simp only [Doc.seq.sizeOf_spec]
      omega
    · have hmem := List.sizeOf_lt_of_mem (by assumption)
      simp only [Doc.pyTuple.sizeOf_spec]
      omega
    · rename_i hi
      have hmem := List.sizeOf_lt_of_mem hi
      have hpair : sizeOf i = 1 + sizeOf i.1 + sizeOf i.2 := rfl
      simp only [Doc.map.sizeOf_spec]
      omega

namespace PyValue

open Fold Except

theorem holds_encode {l : Leaf} {json : Bool} {v : PyValue} {d : Doc} (h : encode json v = .ok d)
    (hd : d.Holds l) : Holds l v ∨ l = .null := by
  fun_induction encode json v generalizing d with
  | case7 xs ih =>
    obtain ⟨ds, hds, rfl⟩ := map_eq_ok_iff.mp h
    rw [Doc.Holds] at hd
    obtain ⟨d, hd, hl⟩ := hd
    obtain ⟨x, hx, hxd⟩ := (mem_of_sequence hds).1 d hd
    rw [Holds]
    exact (ih x hx hxd hl).imp_left fun hl => ⟨x, hx, hl⟩
  | case8 xs ih =>
    obtain ⟨ds, hds, rfl⟩ := map_eq_ok_iff.mp h
    have hd : ∃ d, ∃ _ : d ∈ ds, d.Holds l := by
      split at hd
      · rwa [Doc.Holds] at hd
      · rwa [Doc.Holds] at hd
    obtain ⟨d, hd, hl⟩ := hd
    obtain ⟨x, hx, hxd⟩ := (mem_of_sequence hds).1 d hd
    rw [Holds]
    exact (ih x hx hxd hl).imp_left fun hl => ⟨x, hx, hl⟩
  | case9 items ih =>
    obtain ⟨ds, hds, rfl⟩ := map_eq_ok_iff.mp h
    rw [Doc.Holds] at hd
    obtain ⟨j, hj, hl⟩ := hd
    obtain ⟨i, hi, hij⟩ := (mem_of_sequence hds).1 j hj
    obtain ⟨d, hd, rfl⟩ := map_eq_ok_iff.mp hij
    rw [Holds]
    rcases hl with hl | hl
    · exact .inl ⟨i, hi, .inl hl⟩
    · exact (ih i hi hd hl).imp_left fun hl => ⟨i, hi, .inr hl⟩
  | case5 | case10 => cases h
  | _ =>
    cases h
    rw [Doc.Holds] at hd
    simp [Holds, hd]

/-- The scalars of a public dump are scalars of the tree without its secrets, or stand for what was left
out. -/
theorem holds_of_yamlDump {l : Leaf} {json : Bool} {v : PyValue} {d : Doc} (h : yamlDump true json v = .ok d)
    (hd : d.Holds l) : Holds l v.hide ∨ l = .str omittedText ∨ l = .null := by
  rw [← yamlDump_hide] at h
  generalize v.hide = v at h ⊢
  simp only [yamlDump, Bool.true_and] at h
  obtain ⟨val, hser, h⟩ := Except.bind_eq_ok_iff.mp h
  obtain ⟨val', hstrip, h⟩ := Except.bind_eq_ok_iff.mp h
  have hwritten : Holds l val' ∨ l = .null := by
    rcases holds_encode h hd with hl | hl
    · split at hl
      · exact holds_stripUnserializable hl
      · exact .inl (holds_listed hl)
    · exact .inr hl
  have hstripped : Holds l val' → Holds l val ∨ l = .str omittedText := by
    intro hl
    split at hstrip
    · exact holds_stripSerializedSecrets hstrip hl
    · cases hstrip
      exact .inl hl
  have hserialized : Holds l val → Holds l v := by
    intro hl
    split at hser
    · exact holds_serialize hser hl
    · cases hser
      exact hl
  rcases hwritten with hl | hl
  · exact (hstripped hl).imp hserialized .inl
  · exact .inr (.inr hl)

/-! ### Public dumps -/

/-- The objects are where a dump looks for them, and no marker is left where it cannot be written. -/
def DumpableTree (json : Bool) (v : PyValue) : Prop :=
  if v.isObj then Serializable false v ∧ Dumpable json false false v
  else if v.isDict then Strips json false v
  else Emits json true v

theorem yamlDump_ok_iff (json : Bool) (v : PyValue) : (∃ d, yamlDump true json v = .ok d) ↔ DumpableTree json v := by
  have hdict (val : PyValue) (hval : val.isDict = true) :
      (∃ d, ((if val.isDict then stripSerializedSecrets val else .ok val) >>= fun val =>
        encode json (if val.isDict then stripUnserializable val else val.listed)) = .ok d) ↔ Strips json false val := by
    simp only [hval, if_true, Except.bind_eq_ok_iff]
    rw [exists_comm, ← strip_ok_iff]
    refine exists_congr fun val' => ?_
    rw [exists_and_left, ← encode_stripUnserializable_ok_iff]
    refine and_congr_right fun hstrip => ?_
    rw [isDict_of_strip hval hstrip, if_pos rfl]
  simp only [yamlDump, Bool.true_and]
  by_cases hobj : v.isObj = true
  · rw [DumpableTree, if_pos hobj, if_pos hobj, ← stripsSerialized json false v false]
    cases hser : serialize true false v with
    | error e => simp
    | ok val =>
      have hval := isDict_of_serialize hobj hser
      simp only [Except.ok_bind, Except.ok.injEq, exists_eq_left']
      rw [hdict val hval, listed_of_isDict hval]
  · rw [DumpableTree, if_neg hobj, if_neg hobj, Except.ok_bind]
    by_cases hv : v.isDict = true
    · have hstrips := hdict v hv
      rw [if_pos hv] at hstrips
      rwa [if_pos hv, if_pos hv]
    · simp only [hv, Bool.false_eq_true, if_false, Except.ok_bind]
      rw [encode_ok_iff]
      cases v with
      | tuple xs => simp [listed, Emits]
      | _ => rfl

/-- What a public dump of the tree in a format promises. -/
structure PublicDump (json : Bool) (v : PyValue) : Prop where
  succeeds : ∃ d, yamlDump true json v = .ok d
  no_secret : ∀ d, yamlDump true json v = .ok d → ∀ l, d.Holds l →
    Holds l v.hide ∨ l = .str omittedText ∨ l = .null
  same : ∀ w : PyValue, w.hide = v.hide → yamlDump true json w = yamlDump true json v

/-- A public dump keeps its promise on the trees that it can write, and no others. -/
theorem publicDump_iff (json : Bool) (v : PyValue) : PublicDump json v ↔ DumpableTree json v := by
  rw [← yamlDump_ok_iff]
  constructor
  · exact fun h => h.succeeds
  · intro h
    refine ⟨h, fun d hd l hl => holds_of_yamlDump hd hl, fun w hw => ?_⟩
    rw [← yamlDump_hide, hw, yamlDump_hide]

/-- A key pair, as it stands in the keymat of the links of a UVN. -/
def linkKeys : PyValue :=
  .obj (some (['u', 'v', 'n', 's'], 1))
    [({ name := ['c', 'o', 'n', 't', 'e', 'n', 't'], secret := false, content := true },
      .dict [(['[', '1', ',', ' ', '2', ']'],
        .list [.obj (some (['a', 's', 'y', 'm', 'm'], 1))
          [({ name := ['p', 'u', 'b', 'l', 'i', 'c'], secret := false }, .str ['p']),
            ({ name := ['p', 'r', 'i', 'v', 'a', 't', 'e'], secret := true }, .str ['k'])]])])]

/-- The marker of the private key is in a list, and JSON cannot write it. -/
theorem linkKeys_not_publicDump : ¬ PublicDump true linkKeys := by
  intro h
  have htree := (yamlDump_ok_iff true linkKeys).mp h.succeeds
  rw [DumpableTree, if_pos (show linkKeys.isObj = true from rfl)] at htree
  have hdump := htree.2
  simp [linkKeys, Dumpable, entryKeys, isList, replaced] at hdump

end PyValue

end Uno
