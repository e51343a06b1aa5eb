import Uno.Registry.Identity

/-!
# The exchange of identities

What `exportKeys` and `importKeys` do is copying the delivered files one after another. The paths of
different files differ when owners and targets are parts of paths (`exportPath_inj`, `backendPath_inj`), so
each copy is found again where it belongs.
-/

namespace Uno

open DdsKeysBackend KeyId

/-! ### Paths of plain key ids -/

theorem KeyType.isPart_lower (t : KeyType) : PurePath.IsPart t.lower ∧ t.lower ≠ PurePath.dotdot := by
  cases t <;> exact ⟨⟨by decide, by decide⟩, by decide⟩

theorem KeyType.lower_injective : Function.Injective KeyType.lower := by
  intro t t' h
  cases t <;> cases t' <;> first | rfl | exact absurd h (by decide)

/-- Owner and target are parts of a path. -/
structure KeyId.Plain (id : KeyId) : Prop where
  owner : PurePath.IsPart id.owner
  owner_ne_dotdot : id.owner ≠ PurePath.dotdot
  target : PurePath.IsPart id.target

theorem slash_not_mem_filename (kind : FileKind) : '/' ∉ '-' :: kind.filename := by
  cases kind <;> decide

theorem length_filename (kind : FileKind) : 2 < ('-' :: kind.filename).length := by
  cases kind <;> decide

namespace KeyId

variable {id id' : KeyId} {kind kind' : FileKind}

theorem Plain.isPart_append (h : id.Plain) {suffix : Text} (hslash : '/' ∉ suffix) (hlength : 2 < suffix.length) :
    PurePath.IsPart (id.target ++ suffix) ∧ id.target ++ suffix ≠ PurePath.dotdot := by
  refine ⟨PurePath.isPart_append h.target.slash_not_mem hslash (by omega), fun heq => ?_⟩
  have hlen : (id.target ++ suffix).length = 2 := congrArg List.length heq
  rw [List.length_append] at hlen
  omega

theorem join_lower (p : PurePath) (t : KeyType) : p.join t.lower = ⟨p.absolute, p.parts ++ [t.lower]⟩ := by
  have hjoin := PurePath.join_intercalate p (c := t.lower) (l := [])
    fun d hd => List.mem_singleton.mp hd ▸ t.isPart_lower.1
  rwa [List.intercalate_singleton] at hjoin

theorem Plain.join_eq (h : id.Plain) (p : PurePath) {suffix : Text} (hslash : '/' ∉ suffix) (hlength : 2 < suffix.length) :
    p.join (['/'].intercalate [id.owner, id.target ++ suffix]) =
      ⟨p.absolute, p.parts ++ [id.owner, id.target ++ suffix]⟩ := by
  refine PurePath.join_intercalate p fun d hd => ?_
  rcases List.mem_pair.mp hd with rfl | rfl
  · exact h.owner
  · exact (h.isPart_append hslash hlength).1

theorem Plain.cert_eq (h : id.Plain) :
    cert id = ⟨false, [publicName, id.keyType.lower, id.owner, id.target ++ certSuffix]⟩ := by
  rw [cert, join_lower, h.join_eq _ (by decide) (by decide)]
  rfl

theorem Plain.key_eq (h : id.Plain) :
    key id = ⟨false, [privateName, id.keyType.lower, id.owner, id.target ++ keySuffix]⟩ := by
  rw [key, join_lower, h.join_eq _ (by decide) (by decide)]
  rfl

theorem Plain.permissions_eq (h : id.Plain) : permissions id =
    ⟨false, [permissionsName, id.keyType.lower, id.owner, id.target ++ permissionsSuffix]⟩ := by
  refine PurePath.join_intercalate _ fun d hd => ?_
  simp only [List.mem_cons, List.not_mem_nil, or_false] at hd
  rcases hd with rfl | rfl | rfl
  · exact id.keyType.isPart_lower.1
  · exact h.owner
  · exact (h.isPart_append (by decide) (by decide)).1

theorem Plain.exportPath_eq (h : id.Plain) (kind : FileKind) :
    exportPath id kind = ⟨false, [id.keyType.lower, id.owner, id.target ++ '-' :: kind.filename]⟩ := by
  have hparse := PurePath.parse_intercalate (c := id.keyType.lower) (l := [id.owner, id.target]) fun d hd => by
    simp only [List.mem_cons, List.not_mem_nil, or_false] at hd
    rcases hd with rfl | rfl | rfl
    · exact id.keyType.isPart_lower.1
    · exact h.owner
    · exact h.target
  rw [exportPath, hparse]
  rfl

theorem Plain.str_exportPath (h : id.Plain) (kind : FileKind) : (exportPath id kind).str = relPath id kind := by
  rw [h.exportPath_eq]
  rfl

theorem Plain.slash_not_mem (h : id.Plain) (kind : FileKind) : ∀ c ∈ (exportPath id kind).parts, '/' ∉ c := by
  rw [h.exportPath_eq]
  intro c hc
  simp only [List.mem_cons, List.not_mem_nil, or_false] at hc
  rcases hc with rfl | rfl | rfl
  · exact id.keyType.isPart_lower.1.slash_not_mem
  · exact h.owner.slash_not_mem
  · exact (h.isPart_append (slash_not_mem_filename kind) (length_filename kind)).1.slash_not_mem

theorem Plain.resolve_exportPath (h : id.Plain) (kind : FileKind) : (exportPath id kind).resolve = exportPath id kind := by
  apply PurePath.resolve_eq_self
  rw [h.exportPath_eq]
  intro hmem
  simp only [List.mem_cons, List.not_mem_nil, or_false] at hmem
  rcases hmem with hmem | hmem | hmem
  · exact id.keyType.isPart_lower.2 hmem.symm
  · exact h.owner_ne_dotdot hmem.symm
  · exact (h.isPart_append (slash_not_mem_filename kind) (length_filename kind)).2 hmem.symm

theorem Plain.resolve_of_parts (h : id.Plain) {dir suffix : Text} (hdir : dir ≠ PurePath.dotdot) (hslash : '/' ∉ suffix)
    (hlength : 2 < suffix.length) {p : PurePath}
    (hp : p = ⟨false, [dir, id.keyType.lower, id.owner, id.target ++ suffix]⟩) : p.resolve = p := by
  apply PurePath.resolve_eq_self
  rw [hp]
  intro hmem
  simp only [List.mem_cons, List.not_mem_nil, or_false] at hmem
  rcases hmem with hmem | hmem | hmem | hmem
  · exact hdir hmem.symm
  · exact id.keyType.isPart_lower.2 hmem.symm
  · exact h.owner_ne_dotdot hmem.symm
  · exact (h.isPart_append hslash hlength).2 hmem.symm

theorem Plain.resolve_backendPath (h : id.Plain) (kind : FileKind) :
    (backendPath id kind).resolve = backendPath id kind := by
  cases kind with
  | cert => exact h.resolve_of_parts (by decide) (by decide) (by decide) h.cert_eq
  | key => exact h.resolve_of_parts (by decide) (by decide) (by decide) h.key_eq
  | permissions => exact h.resolve_of_parts (by decide) (by decide) (by decide) h.permissions_eq
  | governance => exact PurePath.resolve_eq_self (p := governance) (by decide)
  | ca => exact PurePath.resolve_eq_self (p := caCert) (by decide)
  | permCa => exact PurePath.resolve_eq_self (p := permCaCert) (by decide)

/-! ### Different files have different paths -/

theorem filename_injective : Function.Injective FileKind.filename := by
  intro k k' h
  cases k <;> cases k' <;> first | rfl | exact absurd h (by decide)

theorem append_filename_inj {t t' : Text} {k k' : FileKind} (hk : k ∈ [FileKind.cert, .key, .permissions])
    (hk' : k' ∈ [FileKind.cert, .key, .permissions]) (h : t ++ '-' :: k.filename = t' ++ '-' :: k'.filename) :
    t = t' ∧ k = k' := by
  by_cases hkind : k = k'
  · rw [hkind] at h
    exact ⟨List.append_cancel_right h, hkind⟩
  · have hreverse := congrArg List.reverse h
    simp only [List.mem_cons, List.not_mem_nil, or_false] at hk hk'
    rcases hk with rfl | rfl | rfl <;> rcases hk' with rfl | rfl | rfl <;>
      first | exact absurd rfl hkind | simp [FileKind.filename] at hreverse

theorem mem_exportedKinds {withPrivkey : Bool} : kind ∈ exportedKinds id withPrivkey ↔
    kind = .cert ∨ withPrivkey = true ∧ (kind = .key ∨ kind = .permissions) ∨
      id.keyType = .root ∧ (kind = .governance ∨ kind = .ca ∨ kind = .permCa) := by
  unfold exportedKinds
  by_cases hroot : id.keyType = .root <;> cases withPrivkey <;> simp [hroot, or_assoc]

theorem mem_own_of_not_root (hkind : kind ∈ exportedKinds id true) (hroot : id.keyType ≠ .root) :
    kind ∈ [FileKind.cert, .key, .permissions] := by
  rcases mem_exportedKinds.mp hkind with rfl | ⟨-, rfl | rfl⟩ | ⟨h, -⟩
  · simp
  · simp
  · simp
  · exact absurd h hroot

theorem Plain.relPath_inj (h : id.Plain) (h' : id'.Plain) (hkind : kind ∈ exportedKinds id true)
    (hkind' : kind' ∈ exportedKinds id' true) (hroot : id.keyType = .root → id'.keyType = .root → id = id')
    (heq : relPath id kind = relPath id' kind') : id = id' ∧ kind = kind' := by
  have hpath : exportPath id kind = exportPath id' kind' := by
    refine PurePath.str_inj ?_ ?_ ?_ ?_ (h.slash_not_mem kind) (h'.slash_not_mem kind') ?_
    · rw [h.exportPath_eq]
    · rw [h'.exportPath_eq]
    · rw [h.exportPath_eq]
      exact List.cons_ne_nil _ _
    · rw [h'.exportPath_eq]
      exact List.cons_ne_nil _ _
    · rw [h.str_exportPath, h'.str_exportPath, heq]
  rw [h.exportPath_eq, h'.exportPath_eq] at hpath
  simp only [PurePath.mk.injEq, List.cons.injEq, true_and, and_true] at hpath
  obtain ⟨htype, howner, hname⟩ := hpath
  have htype := KeyType.lower_injective htype
  by_cases hr : id.keyType = .root
  · have hid := hroot hr (htype ▸ hr)
    rw [hid] at hname
    exact ⟨hid, filename_injective (List.cons_eq_cons.mp (List.append_cancel_left hname)).2⟩
  · obtain ⟨htarget, hk⟩ :=
      append_filename_inj (mem_own_of_not_root hkind hr) (mem_own_of_not_root hkind' (htype ▸ hr)) hname
    refine ⟨?_, hk⟩
    cases id
    cases id'
    cases htype
    cases howner
    cases htarget
    rfl

/-- The paths of private keys and permissions tell whose they are. -/
theorem Plain.backendPath_inj (h : id.Plain) (h' : id'.Plain) (hkind : kind = .key ∨ kind = .permissions)
    (heq : backendPath id' kind' = backendPath id kind) : id' = id ∧ kind' = kind := by
  have hid : ∀ {suffix : Text}, id'.keyType.lower = id.keyType.lower ∧ id'.owner = id.owner ∧
      id'.target ++ suffix = id.target ++ suffix → id' = id := by
    rintro suffix ⟨htype, howner, htarget⟩
    cases id
    cases id'
    cases KeyType.lower_injective htype
    cases howner
    cases List.append_cancel_right htarget
    rfl
  rcases hkind with rfl | rfl
  · rw [show backendPath id .key = key id from rfl, h.key_eq] at heq
    cases kind' with
    | key =>
      rw [show backendPath id' .key = key id' from rfl, h'.key_eq] at heq
      simp only [PurePath.mk.injEq, List.cons.injEq, true_and, and_true] at heq
      exact ⟨hid heq, rfl⟩
    | cert =>
      rw [show backendPath id' .cert = cert id' from rfl, h'.cert_eq] at heq
      exact absurd (List.cons_eq_cons.mp (PurePath.mk.inj heq).2).1 (by decide)
    | permissions =>
      rw [show backendPath id' .permissions = permissions id' from rfl, h'.permissions_eq] at heq
      exact absurd (List.cons_eq_cons.mp (PurePath.mk.inj heq).2).1 (by decide)
    | governance => exact absurd (List.cons_eq_cons.mp (PurePath.mk.inj heq).2).1 (by decide)
    | ca => exact absurd (List.cons_eq_cons.mp (PurePath.mk.inj heq).2).1 (by decide)
    | permCa => exact absurd (List.cons_eq_cons.mp (PurePath.mk.inj heq).2).1 (by decide)
  · rw [show backendPath id .permissions = permissions id from rfl, h.permissions_eq] at heq
    cases kind' with
    | permissions =>
      rw [show backendPath id' .permissions = permissions id' from rfl, h'.permissions_eq] at heq
      simp only [PurePath.mk.injEq, List.cons.injEq, true_and, and_true] at heq
      exact ⟨hid heq, rfl⟩
    | cert =>
      rw [show backendPath id' .cert = cert id' from rfl, h'.cert_eq] at heq
      exact absurd (List.cons_eq_cons.mp (PurePath.mk.inj heq).2).1 (by decide)
    | key =>
      rw [show backendPath id' .key = key id' from rfl, h'.key_eq] at heq
      exact absurd (List.cons_eq_cons.mp (PurePath.mk.inj heq).2).1 (by decide)
    | governance => exact absurd (List.cons_eq_cons.mp (PurePath.mk.inj heq).2).1 (by decide)
    | ca => exact absurd (List.cons_eq_cons.mp (PurePath.mk.inj heq).2).1 (by decide)
    | permCa => exact absurd (List.cons_eq_cons.mp (PurePath.mk.inj heq).2).1 (by decide)

end KeyId

/-! ### Looking up keys -/

section lookup
variable {α : Type} {store : Dict PurePath α} {id : KeyId}

theorem certEntry_eq_some_iff {keyType : KeyType} {p : PurePath} {e : Text × Text} : certEntry keyType p = some e ↔
    p = ⟨false, [publicName, keyType.lower, e.1, e.2]⟩ ∧ certSuffix <:+ e.2 := by
  unfold certEntry
  split
  · next dir type owner name =>
    rw [Option.ite_none_right_eq_some, List.isSuffixOf_iff_suffix]
    constructor
    · rintro ⟨⟨rfl, rfl, hsuffix⟩, h⟩
      cases h
      exact ⟨rfl, hsuffix⟩
    · rintro ⟨h, hsuffix⟩
      cases h
      exact ⟨⟨rfl, rfl, hsuffix⟩, rfl⟩
  · next hne => exact ⟨nofun, fun h => absurd h.1 (hne _ _ _ _)⟩

theorem mem_globCerts {keyType : KeyType} {e : Text × Text} : e ∈ globCerts store keyType ↔
    ⟨false, [publicName, keyType.lower, e.1, e.2]⟩ ∈ store.keys ∧ certSuffix <:+ e.2 := by
  unfold globCerts
  rw [List.mem_filterMap]
  constructor
  · rintro ⟨p, hp, he⟩
    obtain ⟨rfl, hsuffix⟩ := certEntry_eq_some_iff.mp he
    exact ⟨hp, hsuffix⟩
  · exact fun ⟨hp, hsuffix⟩ => ⟨_, hp, certEntry_eq_some_iff.mpr ⟨rfl, hsuffix⟩⟩

theorem nodup_globCerts (store : Dict PurePath α) (keyType : KeyType) : (globCerts store keyType).Nodup := by
  refine store.keys_nodup.filterMap fun p q e hp hq => ?_
  rw [(certEntry_eq_some_iff.mp hp).1, (certEntry_eq_some_iff.mp hq).1]

theorem getItem_eq_ok_iff {k : KeyId} : getItem store id = .ok k ↔
    k = id ∧ ∃! name, ⟨false, [publicName, id.keyType.lower, id.owner, name]⟩ ∈ store.keys ∧
      certSuffix <:+ name ∧ readTarget name = id.target := by
  set found := (globCerts store id.keyType).filter fun e => e.1 = id.owner ∧ readTarget e.2 = id.target with hfound
  have hnodup : found.Nodup := (nodup_globCerts store id.keyType).filter _
  have hmem : ∀ name, (⟨false, [publicName, id.keyType.lower, id.owner, name]⟩ ∈ store.keys ∧
      certSuffix <:+ name ∧ readTarget name = id.target) ↔ (id.owner, name) ∈ found := fun name => by
    rw [hfound, List.mem_filter, mem_globCerts, and_assoc]
    simp
  have howner : ∀ e ∈ found, e.1 = id.owner ∧ readTarget e.2 = id.target := fun e he => by
    simpa using (List.mem_filter.mp he).2
  have hsearch : searchKeys store id = found.map fun e => ⟨id.keyType, e.1, readTarget e.2⟩ := rfl
  simp only [hmem]
  cases hlist : found with
  | nil =>
    rw [hlist] at hsearch
    rw [getItem, getKey, hsearch]
    exact ⟨nofun, fun ⟨_, name, hname, _⟩ => absurd hname (List.not_mem_nil)⟩
  | cons e rest =>
    obtain ⟨he, htarget⟩ := howner e (hlist ▸ List.mem_cons_self)
    have hid : (⟨id.keyType, e.1, readTarget e.2⟩ : KeyId) = id := by
      rw [he, htarget]
    cases rest with
    | nil =>
      rw [hlist, List.map_singleton, hid] at hsearch
      rw [getItem, getKey, hsearch]
      refine ⟨fun h => ⟨(Except.ok.inj h).symm, e.2, ?_, fun name hname => ?_⟩, fun h => congrArg _ h.1.symm⟩
      · rw [← he]
        exact List.mem_singleton.mpr rfl
      · exact congrArg Prod.snd (List.mem_singleton.mp hname)
    | cons e' rest =>
      rw [hlist] at hsearch hnodup
      rw [getItem, getKey, hsearch]
      refine ⟨nofun, fun ⟨_, name, _, honly⟩ => ?_⟩
      have he' := (howner e' (hlist ▸ List.mem_cons_of_mem _ List.mem_cons_self)).1
      have heq : e = e' := Prod.ext (he.trans he'.symm) ((honly e.2 (by rw [← he]; exact List.mem_cons_self)).trans
        (honly e'.2 (by rw [← he']; exact List.mem_cons_of_mem _ List.mem_cons_self)).symm)
      exact absurd (heq ▸ List.mem_cons_self) (List.nodup_cons.mp hnodup).1

theorem removeFrom_subset (pattern : Text) (skip : ℕ) (text : Text) : removeFrom pattern skip text ⊆ text := by
  fun_induction removeFrom pattern skip text with
  | case1 => exact List.Subset.refl _
  | case2 _ _ _ ih => exact List.subset_cons_of_subset _ ih
  | case3 _ _ _ ih => exact List.subset_cons_of_subset _ ih
  | case4 c rest _ ih => exact List.cons_subset_cons c ih

end lookup

/-! ### Copying -/

section copies
variable {α δ : Type} {source dest : Dict PurePath α} {src dst : δ → PurePath} {val : PurePath → Option α}

theorem exists_foldlM_copy {l : List δ}
    (h : ∀ d ∈ l, ∃ content, lookup source (src d) = some content ∧ val (dst d).resolve = some content) :
    ∃ dest', l.foldlM (fun dest d => copy source (src d) dest (dst d)) dest = .ok dest' ∧
      ∀ q, dest'.get? q = if ∃ d ∈ l, (dst d).resolve = q then val q else dest.get? q := by
  induction l generalizing dest with
  | nil => exact ⟨dest, rfl, fun q => by simp⟩
  | cons d rest ih =>
    obtain ⟨content, hlookup, hval⟩ := h d List.mem_cons_self
    obtain ⟨dest', hrest, hdest'⟩ := @ih (dest.set (dst d).resolve content)
      fun d hd => h d (List.mem_cons_of_mem _ hd)
    refine ⟨dest', ?_, fun q => ?_⟩
    · rw [List.foldlM_cons, copy, hlookup]
      exact hrest
    · rw [hdest', Dict.get?_set]
      by_cases hq : ∃ d ∈ rest, (dst d).resolve = q
      · rw [if_pos hq, if_pos (by simpa using .inr hq)]
      · rw [if_neg hq]
        by_cases hd : (dst d).resolve = q
        · rw [if_pos hd, if_pos ⟨d, List.mem_cons_self, hd⟩, ← hd, hval]
        · rw [if_neg hd, if_neg (by simpa [hd] using hq)]

end copies

namespace IdentityDatabase

variable {α : Type} {store : Dict PurePath α} {target : Option ℕ} {l : List IdentityPeer}

/-- All files that are delivered to the target. -/
def deliveries (target : Option ℕ) (l : List IdentityPeer) : List (KeyId × FileKind) :=
  l.flatMap fun p => (delivered target p).map (p.keyId, ·)

theorem mem_deliveries {d : KeyId × FileKind} :
    d ∈ deliveries target l ↔ ∃ p ∈ l, p.keyId = d.1 ∧ d.2 ∈ delivered target p := by
  unfold deliveries
  rw [List.mem_flatMap]
  refine exists_congr fun p => and_congr_right fun _ => ?_
  rw [List.mem_map]
  constructor
  · rintro ⟨k, hk, rfl⟩
    exact ⟨rfl, hk⟩
  · rintro ⟨hid, hk⟩
    exact ⟨d.2, hk, by rw [hid]⟩

def copyOut (store output : Dict PurePath α) (d : KeyId × FileKind) : Except IdentityError (Dict PurePath α) :=
  copy store (backendPath d.1 d.2) output (exportPath d.1 d.2)

def copyIn (base store : Dict PurePath α) (d : KeyId × FileKind) : Except IdentityError (Dict PurePath α) :=
  copy base (exportPath d.1 d.2) store (backendPath d.1 d.2)

theorem deliveries_cons (p : IdentityPeer) (l : List IdentityPeer) :
    deliveries target (p :: l) = (delivered target p).map (p.keyId, ·) ++ deliveries target l := List.flatMap_cons ..

theorem exportKey_eq (store output : Dict PurePath α) (p : IdentityPeer) :
    exportKey store p.keyId output (p.ref = target) =
      ((delivered target p).map (p.keyId, ·)).foldlM (copyOut store) output := by
  rw [List.foldlM_map]
  rfl

theorem foldlM_exportPeer {output : Dict PurePath α} {files : List PurePath}
    (hget : ∀ p ∈ l, getItem store p.keyId = .ok p.keyId)
    (hnodup : (files ++ (deliveries target l).map fun d => exportPath d.1 d.2).Nodup) :
    l.foldlM (exportPeer store target) (output, files) =
      (fun output => (output, files ++ (deliveries target l).map fun d => exportPath d.1 d.2)) <$>
        (deliveries target l).foldlM (copyOut store) output := by
  induction l generalizing output files with
  | nil =>
    simp [deliveries]
  | cons p rest ih =>
    rw [deliveries_cons, List.map_append, ← List.append_assoc] at hnodup
    rw [List.foldlM_cons, exportPeer, hget p List.mem_cons_self, Except.ok_bind, exportKey_eq, deliveries_cons,
      List.foldlM_append, List.map_append]
    cases ((delivered target p).map (p.keyId, ·)).foldlM (copyOut store) output with
    | error e => rfl
    | ok output' =>
      have hfresh : ((exportedKinds p.keyId (p.ref = target)).map (exportPath p.keyId)).any (· ∈ files) = false := by
        rw [List.any_eq_false]
        intro f hf hmem
        have hdisjoint := (List.nodup_append.mp (List.nodup_append.mp hnodup).1).2.2
        rw [List.map_map] at hdisjoint
        exact hdisjoint f (of_decide_eq_true hmem) f hf rfl
      simp only [Except.ok_bind, hfresh, Bool.false_eq_true, if_false]
      rw [← List.append_assoc]
      have hmap : (exportedKinds p.keyId (p.ref = target)).map (exportPath p.keyId) =
          ((delivered target p).map (p.keyId, ·)).map fun d => exportPath d.1 d.2 := by
        rw [List.map_map]
        rfl
      rw [hmap]
      exact ih (fun p hp => hget p (List.mem_cons_of_mem _ hp)) hnodup

theorem of_foldlM_exportPeer {output output' : Dict PurePath α} {files files' : List PurePath}
    (h : l.foldlM (exportPeer store target) (output, files) = .ok (output', files')) :
    (∀ p ∈ l, getItem store p.keyId = .ok p.keyId) ∧
      files' = files ++ (deliveries target l).map fun d => exportPath d.1 d.2 := by
  induction l generalizing output files with
  | nil =>
    cases h
    exact ⟨fun p hp => absurd hp List.not_mem_nil, by simp [deliveries]⟩
  | cons p rest ih =>
    rw [List.foldlM_cons] at h
    obtain ⟨⟨output₁, files₁⟩, hp, hrest⟩ := Except.bind_eq_ok_iff.mp h
    obtain ⟨k, hk, hp⟩ := Except.bind_eq_ok_iff.mp hp
    obtain ⟨output₂, -, hp⟩ := Except.bind_eq_ok_iff.mp hp
    obtain rfl := (getItem_eq_ok_iff.mp hk).1
    dsimp only at hp
    split at hp
    · cases hp
    · cases hp
      obtain ⟨hget, hfiles⟩ := ih hrest
      refine ⟨List.forall_mem_cons.mpr ⟨hk, hget⟩, ?_⟩
      rw [hfiles, deliveries_cons, List.map_append, List.map_map, List.append_assoc]
      rfl

theorem importKey_eq {base : Dict PurePath α} {files : List PurePath} {p : IdentityPeer}
    (hfind : ∀ kind ∈ kinds p, findFile files p.keyId kind =
      if kind ∈ delivered target p then some (exportPath p.keyId kind) else none) (store : Dict PurePath α) :
    importKey base files store p.keyId = ((delivered target p).map (p.keyId, ·)).foldlM (copyIn base) store := by
  have hown : ∀ kind, kind = .key ∨ kind = .permissions → findFile files p.keyId kind =
      if p.ref = target then some (exportPath p.keyId kind) else none := fun kind hkind => by
    refine (hfind kind (mem_exportedKinds.mpr (.inr (.inl ⟨rfl, hkind⟩)))).trans (if_congr ?_ rfl rfl)
    rw [delivered, mem_exportedKinds, decide_eq_true_eq]
    rcases hkind with rfl | rfl <;> simp
  have hfound : ∀ kind, kind = .cert ∨ p.keyId.keyType = .root ∧ (kind = .governance ∨ kind = .ca ∨ kind = .permCa) →
      findFile files p.keyId kind = some (exportPath p.keyId kind) := fun kind hkind => by
    have hmem : ∀ b, kind ∈ exportedKinds p.keyId b := fun b => mem_exportedKinds.mpr (hkind.imp id .inr)
    exact (hfind kind (hmem _)).trans (if_pos (hmem _))
  rw [importKey, hfound .cert (.inl rfl), hown .key (.inl rfl), hown .permissions (.inr rfl)]
  by_cases hroot : p.keyId.keyType = .root
  · have hgovernance := hfound .governance (.inr ⟨hroot, .inl rfl⟩)
    have hca := hfound .ca (.inr ⟨hroot, .inr (.inl rfl)⟩)
    have hpermCa := hfound .permCa (.inr ⟨hroot, .inr (.inr rfl)⟩)
    by_cases htarget : p.ref = target
    · simp [delivered, exportedKinds, hroot, htarget, copyIfFound, copyIn, backendPath, importAuthorities, hgovernance,
        hca, hpermCa]
    · simp [delivered, exportedKinds, hroot, htarget, copyIfFound, copyIn, backendPath, importAuthorities, hgovernance,
        hca, hpermCa]
  · by_cases htarget : p.ref = target
    · simp [delivered, exportedKinds, hroot, htarget, copyIfFound, copyIn, backendPath]
    · simp [delivered, exportedKinds, hroot, htarget, copyIfFound, copyIn, backendPath]

theorem foldlM_importKey {base : Dict PurePath α} {files : List PurePath} (hfind : ∀ p ∈ l, ∀ kind ∈ kinds p,
      findFile files p.keyId kind = if kind ∈ delivered target p then some (exportPath p.keyId kind) else none)
    (store : Dict PurePath α) : l.foldlM (fun store p => importKey base files store p.keyId) store =
      (deliveries target l).foldlM (copyIn base) store := by
  induction l generalizing store with
  | nil => rfl
  | cons p rest ih =>
    rw [List.foldlM_cons, importKey_eq (hfind p List.mem_cons_self), deliveries_cons, List.foldlM_append]
    exact congrArg _ (funext fun store => ih (fun p hp => hfind p (List.mem_cons_of_mem _ hp)) store)

/-! ### The peers of a UVN -/

variable {u : IdentityDatabase}

theorem mem_peers {p : IdentityPeer} : p ∈ u.peers ↔ p = ⟨none, ⟨.root, u.owner, u.name⟩⟩ ∨
    ∃ c ∈ u.cells, p = ⟨some c.1, ⟨.cell, c.2.1, c.2.2⟩⟩ := by
  unfold peers
  rw [List.mem_cons, List.mem_map]
  simp only [eq_comm]

theorem target_ne_nil {p : IdentityPeer} (hp : p ∈ u.peers) : p.keyId.target ≠ [] := by
  rcases mem_peers.mp hp with rfl | ⟨c, hc, rfl⟩
  · exact u.name_ne_nil
  · exact u.cellName_ne_nil c hc

theorem keyId_inj {p q : IdentityPeer} (hp : p ∈ u.peers) (hq : q ∈ u.peers) (h : p.keyId = q.keyId) : p = q := by
  rcases mem_peers.mp hp with rfl | ⟨c, hc, rfl⟩ <;> rcases mem_peers.mp hq with rfl | ⟨d, hd, rfl⟩
  · rfl
  · cases congrArg KeyId.keyType h
  · cases congrArg KeyId.keyType h
  · rw [List.inj_on_of_nodup_map u.names_nodup hc hd (congrArg KeyId.target h)]

theorem eq_of_root {p q : IdentityPeer} (hp : p ∈ u.peers) (hq : q ∈ u.peers) (hroot : p.keyId.keyType = .root)
    (hroot' : q.keyId.keyType = .root) : p = q := by
  rcases mem_peers.mp hp with rfl | ⟨c, hc, rfl⟩
  · rcases mem_peers.mp hq with rfl | ⟨d, hd, rfl⟩
    · rfl
    · cases hroot'
  · cases hroot

theorem nodup_keyIds (u : IdentityDatabase) : (u.peers.map IdentityPeer.keyId).Nodup := by
  have hcells : ((u.cells.map fun c => (⟨some c.1, ⟨.cell, c.2.1, c.2.2⟩⟩ : IdentityPeer)).map
      IdentityPeer.keyId).Nodup := by
    rw [List.map_map]
    refine List.Nodup.of_map KeyId.target ?_
    rw [List.map_map]
    exact u.names_nodup
  rw [peers, List.map_cons, List.nodup_cons]
  refine ⟨fun h => ?_, hcells⟩
  obtain ⟨p, hp, hkey⟩ := List.mem_map.mp h
  obtain ⟨c, -, rfl⟩ := List.mem_map.mp hp
  cases congrArg KeyId.keyType hkey

theorem nodup_deliveries (h : (l.map IdentityPeer.keyId).Nodup) : (deliveries target l).Nodup := by
  induction l with
  | nil => exact List.nodup_nil
  | cons p rest ih =>
    rw [List.map_cons, List.nodup_cons] at h
    rw [deliveries_cons, List.nodup_append]
    refine ⟨?_, ih h.2, ?_⟩
    · refine List.Nodup.map (fun k k' hk => (Prod.mk.inj hk).2) ?_
      unfold delivered exportedKinds
      split_ifs <;> decide
    · rintro d hd _ hd' rfl
      obtain ⟨k, -, rfl⟩ := List.mem_map.mp hd
      obtain ⟨q, hq, hqid, -⟩ := mem_deliveries.mp hd'
      exact h.1 (List.mem_map.mpr ⟨q, hq, hqid⟩)

/-! ### The exchange of readable key ids -/

section readable
variable (hread : ∀ p ∈ u.peers, p.keyId.Readable store)
include hread

theorem plain_of_readable {p : IdentityPeer} (hp : p ∈ u.peers) : p.keyId.Plain :=
  ⟨(hread p hp).owner, (hread p hp).owner_ne_dotdot,
    ⟨fun h => h.elim (target_ne_nil hp) (hread p hp).target_ne_dot, (hread p hp).target⟩⟩

theorem relPath_inj {p q : IdentityPeer} (hp : p ∈ u.peers) (hq : q ∈ u.peers) {k k' : FileKind} (hk : k ∈ kinds p)
    (hk' : k' ∈ kinds q) (h : relPath p.keyId k = relPath q.keyId k') : p = q ∧ k = k' := by
  obtain ⟨hid, hkind⟩ := (plain_of_readable hread hp).relPath_inj (plain_of_readable hread hq) hk hk'
    (fun hr hr' => congrArg IdentityPeer.keyId (eq_of_root hp hq hr hr')) h
  exact ⟨keyId_inj hp hq hid, hkind⟩

theorem exportPath_inj {p q : IdentityPeer} (hp : p ∈ u.peers) (hq : q ∈ u.peers) {k k' : FileKind} (hk : k ∈ kinds p)
    (hk' : k' ∈ kinds q) (h : exportPath p.keyId k = exportPath q.keyId k') : p = q ∧ k = k' := by
  refine relPath_inj hread hp hq hk hk' ?_
  rw [← (plain_of_readable hread hp).str_exportPath, ← (plain_of_readable hread hq).str_exportPath, h]

omit hread in
theorem mem_kinds_of_delivered {p : IdentityPeer} {k : FileKind} (hk : k ∈ delivered target p) : k ∈ kinds p :=
  mem_exportedKinds.mpr ((mem_exportedKinds.mp hk).imp_right (Or.imp_left fun h => ⟨rfl, h.2⟩))

omit hread in
theorem mem_deliveries_iff {p : IdentityPeer} (hp : p ∈ u.peers) {k : FileKind} :
    (p.keyId, k) ∈ deliveries target u.peers ↔ k ∈ delivered target p := by
  rw [mem_deliveries]
  constructor
  · rintro ⟨q, hq, hid, hk⟩
    rwa [keyId_inj hq hp hid] at hk
  · exact fun hk => ⟨p, hp, rfl, hk⟩

theorem delivery_inj {d d' : KeyId × FileKind} (hd : d ∈ deliveries target u.peers)
    (hd' : d' ∈ deliveries target u.peers) (h : exportPath d.1 d.2 = exportPath d'.1 d'.2) : d = d' := by
  obtain ⟨p, hp, hid, hk⟩ := mem_deliveries.mp hd
  obtain ⟨q, hq, hid', hk'⟩ := mem_deliveries.mp hd'
  rw [← hid, ← hid'] at h
  obtain ⟨rfl, hkind⟩ := exportPath_inj hread hp hq (mem_kinds_of_delivered hk) (mem_kinds_of_delivered hk') h
  exact Prod.ext (hid.symm.trans hid') hkind

/-- What is exported: the deliveries, each a copy of its file. -/
theorem exists_exportKeys (hstore : u.Asserted store) (target : Option ℕ) : ∃ output,
    u.exportKeys store target = .ok (output, (deliveries target u.peers).map fun d => exportPath d.1 d.2) ∧
      ∀ d ∈ deliveries target u.peers, lookup output (exportPath d.1 d.2) = lookup store (backendPath d.1 d.2) := by
  have hplain : ∀ d ∈ deliveries target u.peers, d.1.Plain := fun d hd => by
    obtain ⟨p, hp, hid, -⟩ := mem_deliveries.mp hd
    exact hid ▸ plain_of_readable hread hp
  let source : PurePath → Option α := fun q =>
    ((deliveries target u.peers).find? fun d => exportPath d.1 d.2 = q).bind fun d => lookup store (backendPath d.1 d.2)
  have hsource : ∀ d ∈ deliveries target u.peers,
      source (exportPath d.1 d.2).resolve = lookup store (backendPath d.1 d.2) := by
    intro d hd
    rw [(hplain d hd).resolve_exportPath]
    dsimp only [source]
    cases hfind : (deliveries target u.peers).find? fun d' => exportPath d'.1 d'.2 = exportPath d.1 d.2 with
    | none => exact absurd (List.find?_eq_none.mp hfind d hd) (by simp)
    | some d' =>
      have hpath : exportPath d'.1 d'.2 = exportPath d.1 d.2 := by simpa using List.find?_some hfind
      rw [delivery_inj hread (List.mem_of_find?_eq_some hfind) hd hpath]
      rfl
  have hcontents : ∀ d ∈ deliveries target u.peers, ∃ content,
      lookup store (backendPath d.1 d.2) = some content ∧ source (exportPath d.1 d.2).resolve = some content := by
    intro d hd
    obtain ⟨p, hp, hid, -⟩ := mem_deliveries.mp hd
    obtain ⟨content, hcontent⟩ := Option.isSome_iff_exists.mp (hstore.peer p hp d.2)
    rw [hid] at hcontent
    exact ⟨content, hcontent, (hsource d hd).trans hcontent⟩
  obtain ⟨output, hcopy, houtput⟩ := exists_foldlM_copy hcontents
  refine ⟨output, ?_, fun d hd => ?_⟩
  · have hnodup : (([] : List PurePath) ++ (deliveries target u.peers).map fun d => exportPath d.1 d.2).Nodup :=
      (nodup_deliveries u.nodup_keyIds).map_on fun d hd d' hd' => delivery_inj hread hd hd'
    rw [exportKeys, foldlM_exportPeer (fun p hp => getItem_eq_ok_iff.mpr ⟨rfl, (hread p hp).unique⟩) hnodup]
    exact congrArg _ hcopy
  · rw [lookup, houtput, if_pos ⟨d, hd, rfl⟩, hsource d hd]

theorem findFile_eq {p : IdentityPeer} (hp : p ∈ u.peers) {k : FileKind} (hk : k ∈ kinds p) :
    findFile ((deliveries target u.peers).map fun d => exportPath d.1 d.2) p.keyId k =
      if k ∈ delivered target p then some (exportPath p.keyId k) else none := by
  have hrel : ∀ d ∈ deliveries target u.peers, (exportPath d.1 d.2).str = relPath p.keyId k → d = (p.keyId, k) := by
    intro d hd hstr
    obtain ⟨q, hq, hid, hkind⟩ := mem_deliveries.mp hd
    rw [← hid, (plain_of_readable hread hq).str_exportPath] at hstr
    obtain ⟨rfl, rfl⟩ := relPath_inj hread hq hp (mem_kinds_of_delivered hkind) hk hstr
    exact Prod.ext hid.symm rfl
  unfold findFile
  split_ifs with hdelivered
  · cases hfind : List.find? (fun f => decide (f.str = relPath p.keyId k))
      ((deliveries target u.peers).map fun d => exportPath d.1 d.2) with
    | none =>
      have hmem := (mem_deliveries_iff hp).mpr hdelivered
      exact absurd (decide_eq_true ((plain_of_readable hread hp).str_exportPath k))
        (List.find?_eq_none.mp hfind _ (List.mem_map_of_mem hmem))
    | some f =>
      obtain ⟨d, hd, rfl⟩ := List.mem_map.mp (List.mem_of_find?_eq_some hfind)
      rw [hrel d hd (by simpa using List.find?_some hfind)]
  · rw [List.find?_eq_none]
    intro f hf hstr
    obtain ⟨d, hd, rfl⟩ := List.mem_map.mp hf
    rw [hrel d hd (of_decide_eq_true hstr)] at hd
    exact hdelivered ((mem_deliveries_iff hp).mp hd)

theorem exists_importKeys (hstore : u.Asserted store) {output : Dict PurePath α}
    (houtput : ∀ d ∈ deliveries target u.peers,
      lookup output (exportPath d.1 d.2) = lookup store (backendPath d.1 d.2)) :
    ∃ store', u.importKeys ∅ output ((deliveries target u.peers).map fun d => exportPath d.1 d.2) = .ok store' ∧
      ∀ q, store'.get? q = if ∃ d ∈ deliveries target u.peers, (backendPath d.1 d.2).resolve = q then store.get? q
        else none := by
  rw [importKeys, foldlM_importKey fun p hp kind hkind => findFile_eq hread hp hkind]
  refine exists_foldlM_copy fun d hd => ?_
  obtain ⟨p, hp, hid, -⟩ := mem_deliveries.mp hd
  obtain ⟨content, hcontent⟩ := Option.isSome_iff_exists.mp (hstore.peer p hp d.2)
  rw [hid] at hcontent
  exact ⟨content, (houtput d hd).trans hcontent, hcontent⟩

/-- The exchange delivers what it should. -/
theorem delivers_of_readable (hstore : u.Asserted store) (target : Option ℕ) : u.ExportImport store target := by
  obtain ⟨output, hexport, houtput⟩ := exists_exportKeys hread hstore target
  obtain ⟨store', himport, hstore'⟩ := exists_importKeys hread hstore houtput
  have hsame : ∀ p ∈ u.peers, ∀ k ∈ delivered target p,
      lookup store' (backendPath p.keyId k) = lookup store (backendPath p.keyId k) := fun p hp k hk => by
    rw [lookup, hstore', if_pos ⟨_, (mem_deliveries_iff hp).mpr hk, rfl⟩, lookup]
  have hnone : ∀ p ∈ u.peers, p.ref ≠ target → ∀ k, k = .key ∨ k = .permissions →
      lookup store' (backendPath p.keyId k) = none := fun p hp hne k hk => by
    rw [lookup, hstore', if_neg]
    rintro ⟨d, hd, hpath⟩
    obtain ⟨q, hq, hid, hkind⟩ := mem_deliveries.mp hd
    have hq' := plain_of_readable hread hq
    have hp' := plain_of_readable hread hp
    rw [← hid, hq'.resolve_backendPath, hp'.resolve_backendPath] at hpath
    obtain ⟨hqp, hdk⟩ := hp'.backendPath_inj hq' hk hpath
    obtain rfl := keyId_inj hq hp hqp
    rw [hdk, delivered, mem_exportedKinds, decide_eq_true_eq] at hkind
    rcases hk with rfl | rfl <;> simp [hne] at hkind
  have hown : ∀ p ∈ u.peers, p.ref = target → ∀ k, k = .key ∨ k = .permissions → k ∈ delivered target p :=
    fun p _ href k hk => mem_exportedKinds.mpr (.inr (.inl ⟨decide_eq_true href, hk⟩))
  have hroot : ⟨none, ⟨.root, u.owner, u.name⟩⟩ ∈ u.peers := List.mem_cons_self
  refine ⟨output, _, store', hexport, himport, ?_, ?_, ?_, ?_, ?_, ?_⟩
  · exact fun p hp => hsame p hp .cert (mem_exportedKinds.mpr (.inl rfl))
  · intro path hpath
    simp only [List.mem_cons, List.not_mem_nil, or_false] at hpath
    rcases hpath with rfl | rfl | rfl
    · exact hsame _ hroot .governance (mem_exportedKinds.mpr (.inr (.inr ⟨rfl, .inl rfl⟩)))
    · exact hsame _ hroot .ca (mem_exportedKinds.mpr (.inr (.inr ⟨rfl, .inr (.inl rfl)⟩)))
    · exact hsame _ hroot .permCa (mem_exportedKinds.mpr (.inr (.inr ⟨rfl, .inr (.inr rfl)⟩)))
  · exact fun p hp href => ⟨hsame p hp .key (hown p hp href _ (.inl rfl)),
      hsame p hp .permissions (hown p hp href _ (.inr rfl))⟩
  · exact fun p hp hne => ⟨hnone p hp hne .key (.inl rfl), hnone p hp hne .permissions (.inr rfl)⟩
  · intro f hf
    obtain ⟨d, hd, rfl⟩ := List.mem_map.mp hf
    obtain ⟨p, hp, hid, hk⟩ := mem_deliveries.mp hd
    refine ⟨p, hp, d.2, hk, by rw [hid], by rw [hid]; exact houtput d hd, fun hkey => ?_⟩
    rw [hkey, delivered, mem_exportedKinds] at hk
    simpa using hk
  · rintro p hp q hq k hk k' hk' (h | h)
    · exact (exportPath_inj hread hp hq hk hk' h).imp_left (congrArg IdentityPeer.keyId)
    · exact (relPath_inj hread hp hq hk hk' h).imp_left (congrArg IdentityPeer.keyId)

end readable

/-! ### What an exchange that succeeds has read -/

theorem findFile_of_foldlM_importKey {base store store' : Dict PurePath α} {files : List PurePath}
    (h : l.foldlM (fun store p => importKey base files store p.keyId) store = .ok store') :
    ∀ p ∈ l, ∃ f, findFile files p.keyId .cert = some f := by
  induction l generalizing store with
  | nil => exact fun p hp => absurd hp List.not_mem_nil
  | cons p rest ih =>
    rw [List.foldlM_cons] at h
    obtain ⟨store₁, hp, hrest⟩ := Except.bind_eq_ok_iff.mp h
    refine List.forall_mem_cons.mpr ⟨?_, ih hrest⟩
    unfold importKey at hp
    split at hp
    · cases hp
    · next f hf => exact ⟨f, hf⟩

theorem parts_of_getItem (hstore : u.Asserted store) {id k : KeyId} (h : getItem store id = .ok k) :
    PurePath.IsPart id.owner ∧ id.owner ≠ PurePath.dotdot ∧ '/' ∉ id.target := by
  obtain ⟨-, name, ⟨hmem, -, hread⟩, -⟩ := getItem_eq_ok_iff.mp h
  obtain ⟨hresolve, hparts⟩ := hstore.resolved _ hmem
  refine ⟨hparts _ (by simp), ?_, fun hslash => ?_⟩
  · exact PurePath.ne_dotdot_of_resolve (by decide) id.keyType.isPart_lower.2 hresolve
  · rw [← hread] at hslash
    exact (hparts name (by simp)).slash_not_mem (removeFrom_subset _ _ _ hslash)

/-- The certificate of a target that is a dot is exported to a path where it is not looked for. -/
theorem relPath_ne_of_dot {id id' : KeyId} (howner : PurePath.IsPart id.owner) (htarget : id.target = ['.'])
    (howner' : PurePath.IsPart id'.owner) (hslash' : '/' ∉ id'.target) (hne' : id'.target ≠ []) (kind : FileKind) :
    (exportPath id' kind).str ≠ relPath id .cert := by
  intro h
  have hslash : ∀ (i : KeyId) k, PurePath.IsPart i.owner → '/' ∉ i.target →
      ∀ c ∈ [i.keyType.lower, i.owner, i.target ++ '-' :: FileKind.filename k], '/' ∉ c := by
    intro i k hi ht c hc
    simp only [List.mem_cons, List.not_mem_nil, or_false] at hc
    rcases hc with rfl | rfl | rfl
    · exact i.keyType.isPart_lower.1.slash_not_mem
    · exact hi.slash_not_mem
    · rw [List.mem_append, not_or]
      exact ⟨ht, slash_not_mem_filename k⟩
  have hsplit : (exportPath id' kind).str.splitOn '/' =
      [id.keyType.lower, id.owner, id.target ++ '-' :: FileKind.cert.filename] := by
    rw [h]
    exact PurePath.splitOn_str (List.cons_ne_nil _ _) (hslash id .cert howner (by rw [htarget]; decide))
  by_cases hdot : id'.target = ['.']
  · -- the path has lost the target
    have hparse : PurePath.parse (['/'].intercalate [id'.keyType.lower, id'.owner, id'.target]) =
        ⟨false, [id'.keyType.lower, id'.owner]⟩ := by
      have hlower := id'.keyType.isPart_lower.1
      rw [PurePath.parse_eq fun hnil => hlower.not_dropped (.inl hnil)]
      · have hdropped : PurePath.IsDropped id'.target := .inr hdot
        simp [hdropped, hlower.not_dropped, howner'.not_dropped]
      · intro c hc
        simp only [List.mem_cons, List.not_mem_nil, or_false] at hc
        rcases hc with rfl | rfl | rfl
        · exact hlower.slash_not_mem
        · exact howner'.slash_not_mem
        · exact hslash'
    rw [exportPath, hparse] at hsplit
    have hparts : (PurePath.str ⟨false, [id'.keyType.lower, id'.owner ++ '-' :: kind.filename]⟩).splitOn '/' =
        [id'.keyType.lower, id'.owner ++ '-' :: kind.filename] := by
      refine PurePath.splitOn_str (List.cons_ne_nil _ _) fun c hc => ?_
      rcases List.mem_pair.mp hc with rfl | rfl
      · exact id'.keyType.isPart_lower.1.slash_not_mem
      · rw [List.mem_append, not_or]
        exact ⟨howner'.slash_not_mem, slash_not_mem_filename kind⟩
    have hlength := congrArg List.length (hparts.symm.trans hsplit)
    simp at hlength
  · -- no other name than the dot gives the name that is looked for
    have hparse := PurePath.parse_intercalate (c := id'.keyType.lower) (l := [id'.owner, id'.target]) fun d hd => by
      simp only [List.mem_cons, List.not_mem_nil, or_false] at hd
      rcases hd with rfl | rfl | rfl
      · exact id'.keyType.isPart_lower.1
      · exact howner'
      · exact ⟨fun hd => hd.elim hne' hdot, hslash'⟩
    have hparts := PurePath.splitOn_str (List.cons_ne_nil _ _) (hslash id' kind howner' hslash')
    rw [exportPath, hparse] at hsplit
    have hname := hparts.symm.trans hsplit
    simp only [List.cons.injEq, and_true] at hname
    obtain ⟨-, -, hname⟩ := hname
    rw [htarget] at hname
    obtain ⟨a, rest, htarget'⟩ := List.exists_cons_of_ne_nil hne'
    rw [htarget', List.cons_append, List.singleton_append, List.cons.injEq] at hname
    obtain ⟨rfl, hrest⟩ := hname
    cases rest with
    | nil => exact hdot htarget'
    | cons b rest =>
      rw [List.cons_append, List.cons.injEq] at hrest
      have hmem : '-' ∈ FileKind.cert.filename := by
        rw [← hrest.2]
        simp
      exact absurd hmem (by decide)

theorem readable_of_exportImport (hstore : u.Asserted store) (h : u.ExportImport store target) :
    ∀ p ∈ u.peers, p.keyId.Readable store := by
  obtain ⟨output, files, store', hexport, himport, -⟩ := h
  obtain ⟨hget, hfiles⟩ := of_foldlM_exportPeer hexport
  intro p hp
  obtain ⟨howner, hdotdot, hslash⟩ := parts_of_getItem hstore (hget p hp)
  refine ⟨howner, hdotdot, hslash, fun hdot => ?_, (getItem_eq_ok_iff.mp (hget p hp)).2⟩
  obtain ⟨f, hf⟩ := findFile_of_foldlM_importKey himport p hp
  have hstr : f.str = relPath p.keyId .cert := by simpa using List.find?_some hf
  have hmem := List.mem_of_find?_eq_some hf
  rw [hfiles, List.nil_append] at hmem
  obtain ⟨d, hd, rfl⟩ := List.mem_map.mp hmem
  obtain ⟨q, hq, hid, -⟩ := mem_deliveries.mp hd
  obtain ⟨howner', -, hslash'⟩ := parts_of_getItem hstore (hget q hq)
  rw [← hid] at hstr
  exact relPath_ne_of_dot howner hdot howner' hslash' (target_ne_nil hq) d.2 hstr

/-- The files exported for a target deliver what it should have just when every key id is read back. -/
theorem exportImport_iff (hstore : u.Asserted store) (target : Option ℕ) :
    u.ExportImport store target ↔ ∀ p ∈ u.peers, p.keyId.Readable store :=
  ⟨readable_of_exportImport hstore, fun hread => delivers_of_readable hread hstore target⟩

/-! ### An example -/

/-- A UVN with one cell, whose owner's address is given. -/
def exampleUvn (owner : Text) : IdentityDatabase where
  owner := ['r', '@', 'x']
  name := ['u']
  cells := [(1, owner, ['c'])]
  name_ne_nil := List.cons_ne_nil _ _
  cellName_ne_nil c hc := by
    rw [List.mem_singleton.mp hc]
    exact List.cons_ne_nil _ _
  ids_nodup := List.nodup_singleton _
  names_nodup := List.nodup_singleton _

/-- The backend with the files of the peers. -/
def exampleStore (u : IdentityDatabase) : Dict PurePath KeyId :=
  u.peers.foldl (fun store p => [FileKind.cert, .key, .permissions, .governance, .ca, .permCa].foldl
    (fun store kind => store.set (backendPath p.keyId kind).resolve p.keyId) store) ∅

theorem asserted_example {owner : Text} (h : owner = ['a', '@', 'x'] ∨ owner = ['a', '/', 'b', '@', 'x']) :
    (exampleUvn owner).Asserted (exampleStore (exampleUvn owner)) := by
  rcases h with rfl | rfl
  all_goals
    refine ⟨by decide, fun p hp kind => ?_⟩
    rcases mem_peers.mp hp with rfl | ⟨c, hc, rfl⟩
    · cases kind <;> rfl
    · rw [List.mem_singleton.mp hc]
      cases kind <;> rfl

/-- Keys of owners and names without special characters are exchanged. -/
theorem exportImport_plain :
    (exampleUvn ['a', '@', 'x']).ExportImport (exampleStore (exampleUvn ['a', '@', 'x'])) (some 1) := by
  have hget : ∀ p ∈ (exampleUvn ['a', '@', 'x']).peers,
      getItem (exampleStore (exampleUvn ['a', '@', 'x'])) p.keyId = .ok p.keyId ∧ PurePath.IsPart p.keyId.owner ∧
        p.keyId.owner ≠ PurePath.dotdot ∧ '/' ∉ p.keyId.target ∧ p.keyId.target ≠ ['.'] := by
    intro p hp
    rcases mem_peers.mp hp with rfl | ⟨c, hc, rfl⟩
    · exact ⟨rfl, by decide, by decide, by decide, by decide⟩
    · rw [List.mem_singleton.mp hc]
      exact ⟨rfl, by decide, by decide, by decide, by decide⟩
  refine (exportImport_iff (asserted_example (.inl rfl)) (some 1)).mpr fun p hp => ?_
  obtain ⟨hfound, howner, hdotdot, hslash, hdot⟩ := hget p hp
  exact ⟨howner, hdotdot, hslash, hdot, (getItem_eq_ok_iff.mp hfound).2⟩

/-- An owner with a slash: the certificate of the cell is not found, and nothing is exported. -/
theorem exportImport_slash : ∃ (u : IdentityDatabase) (store : Dict PurePath KeyId), u.Asserted store ∧
    u.cells = [(1, ['a', '/', 'b', '@', 'x'], ['c'])] ∧ ¬ u.ExportImport store (some 1) := by
  refine ⟨exampleUvn ['a', '/', 'b', '@', 'x'], exampleStore (exampleUvn ['a', '/', 'b', '@', 'x']),
    asserted_example (.inr rfl), rfl, fun h => ?_⟩
  have howner := (readable_of_exportImport (asserted_example (.inr rfl)) h _
    (mem_peers.mpr (.inr ⟨_, List.mem_singleton.mpr rfl, rfl⟩))).owner
  exact absurd howner.slash_not_mem (by decide)

end IdentityDatabase

end Uno
