import Uno.Registry.Tracking

/-!
# What change tracking records

Setting a property records a change exactly when the stored value differs, and so does configuring a nested
object, along the path to it. Resetting a property to its default records nothing, and an object that was loaded has
previous values of properties that did not change: a call of `configure` tracks its changes exactly when each reset
property has its default already, and a property with a previous value changes if another one does (`tracks_iff`).
-/

namespace Uno

namespace Tracking

variable {Class Name V : Type} (M : Classes Class Name V)

/-! ### The changes of a call -/

def VersionedObject.descriptor (o : VersionedObject Class Name V) (k : Name) : PropertyDescriptor Class Name V :=
  (M.schema o.cls).descriptor k

/-- The nested object that the argument for the property configures. -/
def through (all : Bool) (o : VersionedObject Class Name V) (k : Name) (arg : Arg Class Name V) :
    Option (VersionedObject Class Name V) :=
  if (o.descriptor M k).relevant all arg && arg.isDict then (o.storage k).asObj else none

/-- The stored value of the property differs. An object that is configured in place is the same value. -/
def Differs (all : Bool) (arg : Arg Class Name V) (o o' : VersionedObject Class Name V) (k : Name) : Prop :=
  (o.descriptor M k).reserved = false ∧ through M all o k arg = none ∧ M.eq (o.storage k) (o'.storage k) = false

/-- The path leads to a property that differs, through the nested objects that the call configures. -/
def ChangedPath : Arg Class Name V → Bool → (o o' : VersionedObject Class Name V) → List Name → Prop
  | .dict _ fields, all, o, o', path =>
    match path with
    | [] => False
    | k :: rest => k ∈ (M.schema o.cls).properties ∧ ((rest = [] ∧ Differs M all (fields k) o o' k) ∨
        ∃ x x', through M all o k (fields k) = some x ∧ (o'.storage k).asObj = some x' ∧
          ChangedPath (fields k) false x x' rest)
  | _, _, _, _, _ => False

/-- The object has no recorded change. -/
def Unrecorded (o : VersionedObject Class Name V) : Prop := ∀ k, o.changed k = false

/-- Neither has a nested object that the call configures. -/
def CleanThrough : Arg Class Name V → Bool → VersionedObject Class Name V → Prop
  | .dict _ fields, all, o => Unrecorded o ∧ ∀ k ∈ (M.schema o.cls).properties, ∀ x,
      through M all o k (fields k) = some x → CleanThrough (fields k) false x
  | _, _, o => Unrecorded o

/-- The changes of a call are recorded in the object, with the values before, and in the nested objects it
configures. The ones with a change in them are dirty, and saving clears the record. -/
def Recorded : Arg Class Name V → Bool → (o o' : VersionedObject Class Name V) → Prop
  | .dict plain fields, all, o, o' =>
    (∀ k ∈ (M.schema o.cls).properties, (o.descriptor M k).reserved = false →
      (o'.changed k = true ↔ Differs M all (fields k) o o' k) ∧
        o'.changedValues M k = if o'.changed k then some (o.storage k) else none) ∧
    (o'.saved = true ↔ o.saved = true ∧ ¬ ∃ path, ChangedPath M (.dict plain fields) all o o' path) ∧
    (∀ s, (save M o'.toVal).asObj = some s → Unrecorded s) ∧
    ∀ k ∈ (M.schema o.cls).properties, ∀ x x', through M all o k (fields k) = some x →
      (o'.storage k).asObj = some x' → Recorded (fields k) false x x'
  | _, _, _, _ => True

/-- The change tracking of a call is exact. -/
structure Tracks (arg : Arg Class Name V) (all : Bool) (o : VersionedObject Class Name V)
    (r : Outcome Class Name V) : Prop where
  recorded : Recorded M arg all o r.obj
  /-- The call returns the paths of the changed properties, and of the nested objects on the way. -/
  named : ∀ q, q ∈ r.configured ↔ q ≠ [] ∧ ∃ path, ChangedPath M arg all o r.obj path ∧ q <+: path
  /-- The objects that contain the object become dirty. -/
  dirtied : ∀ saved, (∃ path, ChangedPath M arg all o r.obj path) → ∀ s ∈ r.containers saved, s = false
  untouched : ∀ saved, (¬ ∃ path, ChangedPath M arg all o r.obj path) → r.containers saved = saved

/-- No property that can change is reset from a value other than its default. -/
def NoSilentReset : Arg Class Name V → Bool → VersionedObject Class Name V → Prop
  | .dict _ fields, all, o => ∀ k ∈ (M.schema o.cls).properties,
    (fields k = .reset → (o.descriptor M k).relevant all (fields k) = true → (o.descriptor M k).reserved = false →
      M.eq (o.storage k) (o.descriptor M k).default = true) ∧
    ∀ x, through M all o k (fields k) = some x → NoSilentReset (fields k) false x
  | _, _, _ => True

/-- The argument stores another value in the property. -/
def Stores (all : Bool) (o : VersionedObject Class Name V) (k : Name) (arg : Arg Class Name V) : Prop :=
  (o.descriptor M k).relevant all arg = true ∧ through M all o k arg = none ∧ arg ≠ .reset ∧
    ∃ val, (o.descriptor M k).prepare arg.value = .ok (some val) ∧ M.eq (o.storage k) val = false

/-- Where a property gets another value, all those that have a previous value do. -/
def NoStalePrev : Arg Class Name V → Bool → VersionedObject Class Name V → Prop
  | .dict _ fields, all, o =>
    ((∃ k ∈ (M.schema o.cls).properties, (o.descriptor M k).reserved = false ∧ Stores M all o k (fields k)) →
      ∀ k ∈ (M.schema o.cls).properties, (o.descriptor M k).reserved = false → o.hasPrev k = true →
        Stores M all o k (fields k)) ∧
    ∀ k ∈ (M.schema o.cls).properties, ∀ x, through M all o k (fields k) = some x → NoStalePrev (fields k) false x
  | _, _, _ => True

variable {M}

/-! ### One property -/

/-- What a call leaves of a property it was given. -/
inductive Step (M : Classes Class Name V) (k : Name) (all : Bool) (o : VersionedObject Class Name V)
    (nested : VersionedObject Class Name V → Result (Outcome Class Name V)) (arg : Arg Class Name V) :
    Touched Class Name V → Prop
  | untouched (hthrough : through M all o k arg = none)
      (hreset : arg = .reset → (o.descriptor M k).relevant all arg = false) (hstores : ¬ Stores M all o k arg) :
      Step M k all o nested arg ⟨o.slot k, [], false⟩
  | reset (harg : arg = .reset) (hrel : (o.descriptor M k).relevant all arg = true) :
      Step M k all o nested arg ⟨{ o.slot k with value := (o.descriptor M k).default }, [], false⟩
  | nested {x : VersionedObject Class Name V} {r : Outcome Class Name V} (hthrough : through M all o k arg = some x)
      (hnested : nested x = .ok r) :
      Step M k all o nested arg ⟨{ o.slot k with value := r.obj.toVal },
        if r.configured.isEmpty then [] else [k] :: r.configured.map (k :: ·), r.updated⟩
  | set {val : PropertyValue Class Name V} (hstores : Stores M all o k arg) (hdiff : M.eq (o.storage k) val = false) :
      Step M k all o nested arg ⟨⟨val, true, o.storage k, !(o.descriptor M k).reserved⟩,
        if (o.descriptor M k).reserved then [] else [[k]], !(o.descriptor M k).reserved⟩

variable {o : VersionedObject Class Name V} {k : Name} {all : Bool} {arg : Arg Class Name V}
variable {nested : VersionedObject Class Name V → Result (Outcome Class Name V)} {t : Touched Class Name V}

theorem set_eq_ok {v : PropertyValue Class Name V} {s : Slot Class Name V × Bool} (hclean : Unrecorded o)
    (h : (o.descriptor M k).set M o.loaded (o.slot k) v = .ok s) :
    (s = (o.slot k, false) ∧ ∀ val, (o.descriptor M k).prepare v = .ok (some val) → M.eq (o.storage k) val = true) ∨
      ∃ val, (o.descriptor M k).prepare v = .ok (some val) ∧ M.eq (o.storage k) val = false ∧
        s = (⟨val, true, o.storage k, !(o.descriptor M k).reserved⟩, !(o.descriptor M k).reserved) := by
  rw [PropertyDescriptor.set] at h
  split at h
  · cases h
  · obtain ⟨prepared, hprepared, h⟩ := Except.bind_eq_ok_iff.mp h
    rw [hprepared]
    cases prepared with
    | none =>
      cases h
      exact .inl ⟨rfl, fun val heq => by cases heq⟩
    | some val =>
      by_cases heq : M.eq (o.storage k) val = true
      · simp only [VersionedObject.slot, heq, if_true, Except.ok.injEq] at h
        refine .inl ⟨h.symm, fun val' hval' => ?_⟩
        obtain rfl := Option.some.inj (Except.ok.inj hval')
        exact heq
      · simp only [VersionedObject.slot, heq, Bool.false_eq_true, if_false, Except.ok.injEq] at h
        refine .inr ⟨val, rfl, by simpa using heq, ?_⟩
        rw [← h, hclean k, Bool.false_or]

theorem step_of_configureProperty (hclean : Unrecorded o)
    (h : configureProperty M k (o.descriptor M k) all o.loaded nested arg ⟨o.slot k, [], false⟩ = .ok t) :
    Step M k all o nested arg t := by
  rw [configureProperty.eq_def] at h
  by_cases hrel : (o.descriptor M k).relevant all arg = true
  · simp only [hrel, Bool.not_true, Bool.false_eq_true, if_false] at h
    split at h
    · obtain ⟨slot, hslot, heq⟩ := Except.bind_eq_ok_iff.mp h
      cases heq
      rw [PropertyDescriptor.init] at hslot
      split at hslot
      · cases hslot
      · cases hslot
        exact .reset rfl hrel
    · rename_i plain fields x hx
      obtain ⟨r, hr, heq⟩ := Except.bind_eq_ok_iff.mp h
      cases heq
      refine .nested ?_ hr
      rw [through, if_pos (by simpa [Arg.isDict] using hrel)]
      exact hx
    · rename_i arg _ _ hreset hdict
      have hthrough : through M all o k arg = none := by
        rw [through]
        split
        · cases arg with
          | dict plain fields => exact Option.eq_none_iff_forall_ne_some.mpr fun x hx => hdict plain fields x rfl hx
          | _ => simp_all [Arg.isDict]
        · rfl
      obtain ⟨s, hs, heq⟩ := Except.bind_eq_ok_iff.mp h
      cases heq
      rcases set_eq_ok hclean hs with ⟨rfl, hsame⟩ | ⟨val, hval, hdiff, rfl⟩
      · rw [if_neg (by simp [VersionedObject.slot, hclean k])]
        refine .untouched hthrough (fun harg => absurd harg hreset) ?_
        rintro ⟨-, -, -, val, hval, hdiff⟩
        rw [hsame val hval] at hdiff
        cases hdiff
      · have hconfigured : (if (!(o.descriptor M k).reserved) = true then [[k]] else []) =
            if (o.descriptor M k).reserved then [] else [[k]] := by
          cases (o.descriptor M k).reserved <;> rfl
        rw [hconfigured]
        exact .set ⟨hrel, hthrough, hreset, val, hval, hdiff⟩ hdiff
  · simp only [hrel, Bool.not_false, if_true, Except.ok.injEq] at h
    rw [← h]
    refine .untouched ?_ (fun _ => by simpa using hrel) fun hstores => hrel hstores.1
    rw [through, if_neg (by simp [hrel])]

/-- The path leads on from the property. -/
def ChangedAt (M : Classes Class Name V) (arg : Arg Class Name V) (all : Bool) (o o' : VersionedObject Class Name V)
    (k : Name) (rest : List Name) : Prop :=
  (rest = [] ∧ Differs M all arg o o' k) ∨
    ∃ x x', through M all o k arg = some x ∧ (o'.storage k).asObj = some x' ∧ ChangedPath M arg false x x' rest

/-- The paths that a call returns and the mark it leaves are about the changes that `changes` tells. -/
def Reports (changes : List Name → Prop) (configured : List (List Name)) (updated : Bool) : Prop :=
  (∀ q, q ∈ configured ↔ q ≠ [] ∧ ∃ path, changes path ∧ q <+: path) ∧ (updated = true ↔ ∃ path, changes path)

variable {o' : VersionedObject Class Name V}

theorem changedAt_of_through {x x' : VersionedObject Class Name V} (hthrough : through M all o k arg = some x)
    (hx' : (o'.storage k).asObj = some x') (rest : List Name) :
    ChangedAt M arg all o o' k rest ↔ ChangedPath M arg false x x' rest := by
  constructor
  · rintro (⟨-, -, hnone, -⟩ | ⟨y, y', hy, hy', hpath⟩)
    · rw [hthrough] at hnone
      cases hnone
    · rw [hthrough] at hy
      rw [hx'] at hy'
      cases hy
      cases hy'
      exact hpath
  · exact fun hpath => .inr ⟨x, x', hthrough, hx', hpath⟩

theorem changedAt_of_not_through (hthrough : through M all o k arg = none) (rest : List Name) :
    ChangedAt M arg all o o' k rest ↔ rest = [] ∧ (o.descriptor M k).reserved = false ∧
      M.eq (o.storage k) (o'.storage k) = false := by
  simp [ChangedAt, Differs, hthrough]

theorem Step.changed_iff (hstep : Step M k all o nested arg t) (hclean : Unrecorded o)
    (hres : (o.descriptor M k).reserved = false) : t.slot.changed = true ↔ Stores M all o k arg := by
  cases hstep with
  | untouched _ _ hstores => simp [VersionedObject.slot, hclean k, hstores]
  | reset harg _ => simp [VersionedObject.slot, hclean k, Stores, harg]
  | nested hthrough _ => simp [VersionedObject.slot, hclean k, Stores, hthrough]
  | set hstores _ => simp [hres, hstores]

theorem Step.prev (hstep : Step M k all o nested arg t) (hclean : Unrecorded o)
    (hres : (o.descriptor M k).reserved = false) :
    (t.slot.changed = true → t.slot.hasPrev = true ∧ t.slot.prev = o.storage k) ∧
      (t.slot.changed = false → t.slot.hasPrev = o.hasPrev k) := by
  cases hstep with
  | untouched _ _ _ | reset _ _ | nested _ _ => simp [VersionedObject.slot, hclean k]
  | set _ _ => simp [hres]

theorem Step.recorded (hstep : Step M k all o nested arg t) (hslot : o'.slot k = t.slot) (hclean : Unrecorded o)
    (hreset : arg = .reset → (o.descriptor M k).relevant all arg = true → (o.descriptor M k).reserved = false →
      M.eq (o.storage k) (o.descriptor M k).default = true) (hres : (o.descriptor M k).reserved = false) :
    o'.changed k = true ↔ Differs M all arg o o' k := by
  have hvalue : o'.storage k = t.slot.value := congrArg Slot.value hslot
  have hchanged : o'.changed k = t.slot.changed := congrArg Slot.changed hslot
  rw [Differs, hvalue, hchanged]
  cases hstep with
  | untouched _ _ _ => simp [VersionedObject.slot, hclean k, M.eq_refl]
  | reset harg hrel => simp [VersionedObject.slot, hclean k, hreset harg hrel hres]
  | nested hthrough _ => simp [VersionedObject.slot, hclean k, hthrough]
  | set hstores hdiff => simp [hres, hstores.2.1, hdiff]

theorem reports_nil {changes : List Name → Prop} (h : ∀ path, ¬ changes path) : Reports changes [] false :=
  ⟨fun q => by simp [h], by simp [h]⟩

theorem Reports.cons {changes : List Name → Prop} {configured : List (List Name)} {updated : Bool}
    (h : Reports changes configured updated) (hne : ¬ changes []) :
    Reports (fun path => ∃ rest, path = k :: rest ∧ changes rest)
      (if configured.isEmpty then [] else [k] :: configured.map (k :: ·)) updated := by
  have hempty : configured.isEmpty = true ↔ ¬ ∃ path, changes path := by
    rw [List.isEmpty_iff, List.eq_nil_iff_forall_not_mem]
    constructor
    · rintro hnil ⟨path, hpath⟩
      exact hnil path ((h.1 path).mpr ⟨fun heq => hne (heq ▸ hpath), path, hpath, List.prefix_rfl⟩)
    · intro hno q hq
      obtain ⟨-, path, hpath, -⟩ := (h.1 q).mp hq
      exact hno ⟨path, hpath⟩
  have hupdated : (∃ path rest, path = k :: rest ∧ changes rest) ↔ ∃ path, changes path :=
    ⟨fun ⟨_, rest, _, hrest⟩ => ⟨rest, hrest⟩, fun ⟨path, hpath⟩ => ⟨_, path, rfl, hpath⟩⟩
  refine ⟨fun q => ?_, h.2.trans hupdated.symm⟩
  by_cases hsome : ∃ path, changes path
  · rw [if_neg fun hnil => hempty.mp hnil hsome]
    constructor
    · intro hq
      rcases List.mem_cons.mp hq with rfl | hq
      · obtain ⟨path, hpath⟩ := hsome
        exact ⟨by simp, k :: path, ⟨path, rfl, hpath⟩, by simp⟩
      · obtain ⟨q', hq', rfl⟩ := List.mem_map.mp hq
        obtain ⟨-, path, hpath, hprefix⟩ := (h.1 q').mp hq'
        exact ⟨by simp, k :: path, ⟨path, rfl, hpath⟩, (List.prefix_cons_inj k).mpr hprefix⟩
    · rintro ⟨hq, path, ⟨rest, rfl, hrest⟩, hprefix⟩
      cases q with
      | nil => exact absurd rfl hq
      | cons k' q' =>
        obtain ⟨rfl, htail⟩ := List.cons_prefix_cons.mp hprefix
        cases q' with
        | nil => exact List.mem_cons_self
        | cons k'' q'' =>
          refine List.mem_cons_of_mem _ (List.mem_map_of_mem ?_)
          exact (h.1 _).mpr ⟨by simp, rest, hrest, htail⟩
  · rw [if_pos (hempty.mpr hsome)]
    refine ⟨fun hq => absurd hq (List.not_mem_nil), ?_⟩
    rintro ⟨-, path, ⟨rest, -, hrest⟩, -⟩
    exact absurd ⟨rest, hrest⟩ hsome

theorem not_changedPath_nil (o o' : VersionedObject Class Name V) : ¬ ChangedPath M arg all o o' [] := by
  cases arg <;> simp [ChangedPath]

theorem Step.reports (hstep : Step M k all o nested arg t) (hslot : o'.slot k = t.slot)
    (hreset : arg = .reset → (o.descriptor M k).relevant all arg = true → (o.descriptor M k).reserved = false →
      M.eq (o.storage k) (o.descriptor M k).default = true)
    (hnested : ∀ x r, through M all o k arg = some x → nested x = .ok r →
      Reports (ChangedPath M arg false x r.obj) r.configured r.updated) :
    Reports (fun path => ∃ rest, path = k :: rest ∧ ChangedAt M arg all o o' k rest) t.configured t.updated := by
  have hvalue : o'.storage k = t.slot.value := congrArg Slot.value hslot
  cases hstep with
  | untouched hthrough _ _ =>
    apply reports_nil
    rintro path ⟨rest, -, hrest⟩
    rw [changedAt_of_not_through hthrough, hvalue] at hrest
    simp [VersionedObject.slot, M.eq_refl] at hrest
  | reset harg hrel =>
    have hthrough : through M all o k arg = none := by simp [through, harg, Arg.isDict]
    apply reports_nil
    rintro path ⟨rest, -, hrest⟩
    rw [changedAt_of_not_through hthrough, hvalue] at hrest
    simp [hreset harg hrel hrest.2.1] at hrest
  | @nested x r hthrough hx =>
    have hobj : (o'.storage k).asObj = some r.obj := by rw [hvalue, PropertyValue.asObj_toVal]
    simp only [changedAt_of_through hthrough hobj]
    exact (hnested _ _ hthrough hx).cons (not_changedPath_nil _ _)
  | set hstores hdiff =>
    simp only [changedAt_of_not_through hstores.2.1, hvalue, hdiff]
    cases hres : (o.descriptor M k).reserved with
    | true => exact reports_nil (by simp)
    | false =>
      refine ⟨fun q => ?_, by simp⟩
      cases q with
      | nil => simp
      | cons k' q' => simp [List.cons_prefix_cons, and_comm]

theorem Step.changed_of_reserved (hstep : Step M k all o nested arg t) (hclean : Unrecorded o)
    (hres : (o.descriptor M k).reserved = true) : t.slot.changed = false := by
  cases hstep with
  | untouched _ _ _ | reset _ _ | nested _ _ => exact hclean k
  | set _ _ => simp [hres]

theorem Step.of_reset (hstep : Step M k all o nested arg t) (harg : arg = .reset)
    (hrel : (o.descriptor M k).relevant all arg = true) :
    t.slot.value = (o.descriptor M k).default ∧ t.slot.changed = o.changed k := by
  cases hstep with
  | untouched _ hirrelevant _ =>
    rw [hirrelevant harg] at hrel
    cases hrel
  | reset _ _ => exact ⟨rfl, rfl⟩
  | nested hthrough _ => simp [through, harg, Arg.isDict] at hthrough
  | set hstores _ => exact absurd harg hstores.2.2.1

theorem Step.nested_of_through {x : VersionedObject Class Name V} (hstep : Step M k all o nested arg t)
    (hthrough : through M all o k arg = some x) : ∃ r, nested x = .ok r ∧ t.slot.value = r.obj.toVal := by
  cases hstep with
  | untouched hnone _ _ =>
    rw [hthrough] at hnone
    cases hnone
  | set hstores _ =>
    rw [hstores.2.1] at hthrough
    cases hthrough
  | reset harg _ => simp [through, harg, Arg.isDict] at hthrough
  | nested hx hr =>
    rw [hthrough] at hx
    cases hx
    exact ⟨_, hr, rfl⟩

theorem unrecorded_of_save {x s : VersionedObject Class Name V} (h : x.saved = true → Unrecorded x)
    (hs : (save M x.toVal).asObj = some s) : Unrecorded s := by
  rw [VersionedObject.toVal, save] at hs
  split at hs
  · cases hs
    exact fun _ => rfl
  · rename_i hdirty
    cases hs
    refine h ?_
    by_contra hsaved
    exact hdirty (by simp [dirty, hsaved])

/-! ### The whole call -/

variable [DecidableEq Name]

theorem configure_eq_ok {plain : V} {fields : Name → Arg Class Name V} {r : Outcome Class Name V}
    (hclean : Unrecorded o) (h : configure M (.dict plain fields) all o = .ok r) :
    ∃ touched : Name → Touched Class Name V,
      (∀ k ∈ (M.schema o.cls).properties,
        Step M k all o (fun x => configure M (fields k) false x) (fields k) (touched k)) ∧
      (∀ k ∉ (M.schema o.cls).properties, (touched k).slot = o.slot k) ∧
      (∀ k, r.obj.slot k = (touched k).slot) ∧ r.obj.cls = o.cls ∧ r.obj.saved = (o.saved && !r.updated) ∧
      (∀ q, q ∈ r.configured ↔ ∃ k ∈ (M.schema o.cls).properties, q ∈ (touched k).configured) ∧
      (r.updated = true ↔ ∃ k ∈ (M.schema o.cls).properties, (touched k).updated = true) := by
  rw [configure] at h
  split at h
  · rename_i hnone
    cases h
    have hirrelevant : ∀ k ∈ (M.schema o.cls).properties, (o.descriptor M k).relevant all (fields k) = false := by
      simpa [VersionedObject.descriptor] using hnone
    refine ⟨fun k => ⟨o.slot k, [], false⟩, fun k hk => .untouched ?_ (fun _ => hirrelevant k hk) fun hstores => ?_,
      fun k _ => rfl, fun k => rfl, rfl, by simp, by simp, by simp⟩
    · rw [through, hirrelevant k hk]
      rfl
    · exact Bool.false_ne_true ((hirrelevant k hk).symm.trans hstores.1)
  · obtain ⟨touched, htouched, h⟩ := Except.bind_eq_ok_iff.mp h
    obtain ⟨_, -, heq⟩ := Except.bind_eq_ok_iff.mp h
    cases heq
    obtain ⟨hmem, hother⟩ := (Fold.foldlM_update_iff _ (M.schema o.cls).nodup).mp htouched
    refine ⟨touched, fun k hk => step_of_configureProperty hclean (hmem k hk), fun k hk => ?_, fun k => rfl, rfl, rfl,
      fun q => List.mem_flatMap, List.any_eq_true⟩
    rw [hother k hk]

omit [DecidableEq Name] in
/-- The previous values of a call are those of its changes, exactly if none was there before that stays. -/
theorem changedValues_eq_iff {fields : Name → Arg Class Name V} {touched : Name → Touched Class Name V}
    {nested : Name → VersionedObject Class Name V → Result (Outcome Class Name V)} (hclean : Unrecorded o)
    (hcls : o'.cls = o.cls) (hslot : ∀ k, o'.slot k = (touched k).slot)
    (hstep : ∀ k ∈ (M.schema o.cls).properties, Step M k all o (nested k) (fields k) (touched k)) :
    (∀ k ∈ (M.schema o.cls).properties, (o.descriptor M k).reserved = false →
      o'.changedValues M k = if o'.changed k then some (o.storage k) else none) ↔
    ((∃ k ∈ (M.schema o.cls).properties, (o.descriptor M k).reserved = false ∧ Stores M all o k (fields k)) →
      ∀ k ∈ (M.schema o.cls).properties, (o.descriptor M k).reserved = false → o.hasPrev k = true →
        Stores M all o k (fields k)) := by
  have hchanged : ∀ k, o'.changed k = (touched k).slot.changed := fun k => congrArg Slot.changed (hslot k)
  have hhasPrev : ∀ k, o'.hasPrev k = (touched k).slot.hasPrev := fun k => congrArg Slot.hasPrev (hslot k)
  have hany : (M.schema o'.cls).properties.any o'.changed = true ↔
      ∃ k ∈ (M.schema o.cls).properties, (o.descriptor M k).reserved = false ∧ Stores M all o k (fields k) := by
    rw [hcls, List.any_eq_true]
    refine exists_congr fun k => and_congr_right fun hk => ?_
    rw [hchanged k]
    cases hres : (o.descriptor M k).reserved with
    | true => simp [(hstep k hk).changed_of_reserved hclean hres]
    | false => simp [(hstep k hk).changed_iff hclean hres]
  constructor
  · intro hvalues hsome k hk hres hprev
    by_contra hstores
    have hunchanged : (touched k).slot.changed = false := by
      simpa using mt ((hstep k hk).changed_iff hclean hres).mp hstores
    have hvalue := hvalues k hk hres
    rw [VersionedObject.changedValues, hany.mpr hsome, hhasPrev k, ((hstep k hk).prev hclean hres).2 hunchanged, hprev,
      hchanged k, hunchanged] at hvalue
    cases hvalue
  · intro hstale k hk hres
    rw [VersionedObject.changedValues, hhasPrev k, hchanged k]
    obtain ⟨hrecorded, hunrecorded⟩ := (hstep k hk).prev hclean hres
    cases hk' : (touched k).slot.changed with
    | true =>
      have hstores := ((hstep k hk).changed_iff hclean hres).mp hk'
      rw [hany.mpr ⟨k, hk, hres, hstores⟩, (hrecorded hk').1, show o'.prev k = (touched k).slot.prev from
        congrArg Slot.prev (hslot k), (hrecorded hk').2]
      rfl
    | false =>
      rw [hunrecorded hk']
      refine if_neg fun hboth => ?_
      obtain ⟨hsome, hprev⟩ := Bool.and_eq_true_iff.mp hboth
      have hstores := hstale (hany.mp hsome) k hk hres hprev
      rw [((hstep k hk).changed_iff hclean hres).mpr hstores] at hk'
      cases hk'

/-- A call that resets no property from a value other than its default, and leaves no previous value of another one,
records and reports its changes. -/
theorem recorded_of_noSilentReset {r : Outcome Class Name V} (h : configure M arg all o = .ok r)
    (hclean : CleanThrough M arg all o) (hreset : NoSilentReset M arg all o) (hstale : NoStalePrev M arg all o) :
    Recorded M arg all o r.obj ∧ Reports (ChangedPath M arg all o r.obj) r.configured r.updated := by
  induction arg generalizing all o r with
  | absent | reset | val v =>
    cases h
    exact ⟨trivial, reports_nil fun path hpath => hpath⟩
  | dict plain fields ih =>
    obtain ⟨touched, hstep, hother, hslot, hcls, hsaved, hconfigured, hupdated⟩ := configure_eq_ok hclean.1 h
    have hnested : ∀ k ∈ (M.schema o.cls).properties, ∀ x r', through M all o k (fields k) = some x →
        configure M (fields k) false x = .ok r' →
          Recorded M (fields k) false x r'.obj ∧
            Reports (ChangedPath M (fields k) false x r'.obj) r'.configured r'.updated :=
      fun k hk x r' hx hr' => ih k hr' (hclean.2 k hk x hx) ((hreset k hk).2 x hx) (hstale.2 k hk x hx)
    have hreports : ∀ k ∈ (M.schema o.cls).properties,
        Reports (fun path => ∃ rest, path = k :: rest ∧ ChangedAt M (fields k) all o r.obj k rest)
          (touched k).configured (touched k).updated :=
      fun k hk => (hstep k hk).reports (hslot k) (hreset k hk).1 fun x r' hx hr' => (hnested k hk x r' hx hr').2
    have hpath (path : List Name) : ChangedPath M (.dict plain fields) all o r.obj path ↔
        ∃ k ∈ (M.schema o.cls).properties, ∃ rest, path = k :: rest ∧ ChangedAt M (fields k) all o r.obj k rest := by
      cases path with
      | nil => simp [ChangedPath]
      | cons k rest => 
        constructor
        · exact fun hpath => ⟨k, hpath.1, rest, rfl, hpath.2⟩
        · rintro ⟨k', hk', rest', heq, hat⟩
          cases heq
          exact ⟨hk', hat⟩
    have hreport : Reports (ChangedPath M (.dict plain fields) all o r.obj) r.configured r.updated := by
      constructor
      · intro q
        rw [hconfigured]
        constructor
        · rintro ⟨k, hk, hq⟩
          obtain ⟨hne, path, hat, hprefix⟩ := ((hreports k hk).1 q).mp hq
          exact ⟨hne, path, (hpath path).mpr ⟨k, hk, hat⟩, hprefix⟩
        · rintro ⟨hne, path, hchanged, hprefix⟩
          obtain ⟨k, hk, hat⟩ := (hpath path).mp hchanged
          exact ⟨k, hk, ((hreports k hk).1 q).mpr ⟨hne, path, hat, hprefix⟩⟩
      · rw [hupdated]
        constructor
        · rintro ⟨k, hk, hup⟩
          obtain ⟨path, hat⟩ := (hreports k hk).2.mp hup
          exact ⟨path, (hpath path).mpr ⟨k, hk, hat⟩⟩
        · rintro ⟨path, hchanged⟩
          obtain ⟨k, hk, hat⟩ := (hpath path).mp hchanged
          exact ⟨k, hk, (hreports k hk).2.mpr ⟨path, hat⟩⟩
    have hrecord : ∀ k ∈ (M.schema o.cls).properties, (o.descriptor M k).reserved = false →
        (r.obj.changed k = true ↔ Differs M all (fields k) o r.obj k) :=
      fun k hk hres => (hstep k hk).recorded (hslot k) hclean.1 (hreset k hk).1 hres
    have hvalues := (changedValues_eq_iff hclean.1 hcls hslot hstep).mpr hstale.1
    refine ⟨⟨fun k hk hres => ⟨hrecord k hk hres, hvalues k hk hres⟩, ?_, fun s => unrecorded_of_save fun hs => ?_, ?_⟩, hreport⟩
    · rw [hsaved, ← hreport.2]
      simp
    · rw [hsaved, Bool.and_eq_true, Bool.not_eq_true'] at hs
      have hunchanged : ¬ ∃ path, ChangedPath M (.dict plain fields) all o r.obj path := by
        rw [← hreport.2, hs.2]
        exact Bool.false_ne_true
      intro k
      by_cases hk : k ∈ (M.schema o.cls).properties
      · by_cases hres : (o.descriptor M k).reserved = true
        · exact (congrArg Slot.changed (hslot k)).trans ((hstep k hk).changed_of_reserved hclean.1 hres)
        · by_contra hne
          have hdiffers := (hrecord k hk (by simpa using hres)).mp (by simpa using hne)
          exact hunchanged ⟨[k], hk, .inl ⟨rfl, hdiffers⟩⟩
      · exact (congrArg Slot.changed ((hslot k).trans (hother k hk))).trans (hclean.1 k)
    · intro k hk x x' hx hx'
      obtain ⟨r', hr', hvalue⟩ := (hstep k hk).nested_of_through hx
      have hstored : r.obj.storage k = r'.obj.toVal := (congrArg Slot.value (hslot k)).trans hvalue
      rw [hstored, PropertyValue.asObj_toVal, Option.some.injEq] at hx'
      rw [← hx']
      exact (hnested k hk x r' hx hr').1

/-- Where a property is reset from another value, the change is not recorded. -/
theorem noSilentReset_of_recorded {r : Outcome Class Name V} (h : configure M arg all o = .ok r)
    (hclean : CleanThrough M arg all o) (hrec : Recorded M arg all o r.obj) : NoSilentReset M arg all o := by
  induction arg generalizing all o r with
  | absent | reset | val v => trivial
  | dict plain fields ih =>
    obtain ⟨touched, hstep, hother, hslot, hcls, hsaved, hconfigured, hupdated⟩ := configure_eq_ok hclean.1 h
    obtain ⟨hrecord, -, -, hnested⟩ := hrec
    refine fun k hk => ⟨fun harg hrel hres => ?_, fun x hx => ?_⟩
    · obtain ⟨hvalue, hchanged⟩ := (hstep k hk).of_reset harg hrel
      have hstored : r.obj.storage k = (o.descriptor M k).default := (congrArg Slot.value (hslot k)).trans hvalue
      have hno : r.obj.changed k = false :=
        (congrArg Slot.changed (hslot k)).trans (hchanged.trans (hclean.1 k))
      by_contra hdiff
      have hdiffers : Differs M all (fields k) o r.obj k := by
        refine ⟨hres, by simp [through, harg, Arg.isDict], ?_⟩
        rw [hstored]
        simpa using hdiff
      rw [← (hrecord k hk hres).1, hno] at hdiffers
      exact Bool.false_ne_true hdiffers
    · obtain ⟨r', hr', hvalue⟩ := (hstep k hk).nested_of_through hx
      have hstored : r.obj.storage k = r'.obj.toVal := (congrArg Slot.value (hslot k)).trans hvalue
      exact ih k hr' (hclean.2 k hk x hx) (hnested k hk x r'.obj hx (by rw [hstored, PropertyValue.asObj_toVal]))

/-- Where the record of an object that was loaded has other previous values, they are not those of the changes. -/
theorem noStalePrev_of_recorded {r : Outcome Class Name V} (h : configure M arg all o = .ok r)
    (hclean : CleanThrough M arg all o) (hrec : Recorded M arg all o r.obj) : NoStalePrev M arg all o := by
  induction arg generalizing all o r with
  | absent | reset | val v => trivial
  | dict plain fields ih =>
    obtain ⟨touched, hstep, hother, hslot, hcls, hsaved, hconfigured, hupdated⟩ := configure_eq_ok hclean.1 h
    obtain ⟨hrecord, -, -, hnested⟩ := hrec
    refine ⟨(changedValues_eq_iff hclean.1 hcls hslot hstep).mp fun k hk hres => (hrecord k hk hres).2,
      fun k hk x hx => ?_⟩
    obtain ⟨r', hr', hvalue⟩ := (hstep k hk).nested_of_through hx
    have hstored : r.obj.storage k = r'.obj.toVal := (congrArg Slot.value (hslot k)).trans hvalue
    exact ih k hr' (hclean.2 k hk x hx) (hnested k hk x r'.obj hx (by rw [hstored, PropertyValue.asObj_toVal]))

/-- A settings class with the properties `false` and `true`, whose defaults are 0. -/
def settings : Classes Unit Bool ℕ where
  schema _ :=
    { properties := [false, true]
      nodup := by decide
      descriptor := fun _ => ⟨false, false, false, .plain 0, fun v => .ok (some v)⟩
      hasTable := false
      validate := fun _ => .ok () }
  eq
    | .plain v, .plain w => v = w
    | .none, .none => true
    | .obj .., .obj .. => true
    | _, _ => false
  eq_refl v := by cases v <;> simp

/-- Settings with the values 1 and 2, and the previous values that they were loaded with. -/
def someSettings (hasPrev : Bool → Bool) : VersionedObject Unit Bool ℕ where
  cls := ()
  storage k := if k then .plain 2 else .plain 1
  hasPrev := hasPrev
  prev _ := .plain 0
  changed _ := false
  saved := true
  loaded := true

theorem cleanThrough_someSettings (hasPrev : Bool → Bool) {fields : Bool → Arg Unit Bool ℕ} :
    CleanThrough settings (.dict 0 fields) false (someSettings hasPrev) := by
  refine ⟨fun _ => rfl, fun k _ x hx => ?_⟩
  rw [through] at hx
  split_ifs at hx
  cases k <;> cases hx

/-- `configure(false=3)` of settings that were loaded: the other property has a previous value, too. -/
example : ∃ r, configure settings (.dict 0 fun k => if k then .absent else .val (.plain 3)) false
      (someSettings fun _ => true) = .ok r ∧ r.obj.changed true = false ∧
    r.obj.changedValues settings true = some (.plain 0) :=
  ⟨_, rfl, rfl, rfl⟩

end Tracking

end Uno
