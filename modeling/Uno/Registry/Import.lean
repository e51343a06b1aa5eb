import Uno.Registry.Package

/-!
# The keys of an agent that was reloaded

The agent of a cell starts with the database of its package. When it is given a later package it imports the database of
that package into its own (`importOther`): the rows of the registry's objects are dropped first, the keys are not, and
each key that is imported replaces the one with its key id. Keys that the later package does not have stay.

After any number of packages the agent computes the configurations that the registry meant with the last one
(`agent_follows`).
-/

namespace Uno

open PairedValuesMap RegistryState

/-! ### Importing -/

/-- `DB_ORDER_BY`: key ids are compared as texts. -/
structure KeyOrders where
  asymm : AsymmKey → AsymmKey → Bool
  symm : SymmKey → SymmKey → Bool

/-- The key tables after `import_other`, which saves the keys one by one as they are loaded. -/
def PackageKeys.importOther (orders : KeyOrders) (db other : PackageKeys) : Result PackageKeys :=
  let asymm := asymmRowKeys.writeAll (fun r => r) db.asymmKeys
    (other.asymmKeys.mergeSort fun r r' => orders.asymm r.key r'.key)
  let symm := symmRowKeys.writeAll (fun r => r) db.symmKeys
    (other.symmKeys.mergeSort fun r r' => orders.symm r.key r'.key)
  match asymm, symm with
  | some asymmKeys, some symmKeys => .ok ⟨asymmKeys, symmKeys⟩
  | _, _ => .error .integrity

/-- `Database.import_other`, into the database of an agent. -/
def CellPackage.importOther (orders : KeyOrders) (db other : CellPackage) : Result CellPackage := do
  let keys ← db.keys.importOther orders other.keys
  .ok ⟨other.uvn, other.settings, other.deployment, keys⟩

/-! ### Reading tables with one key at each place -/

namespace PackageKeys

/-- All keys are active, and a key id has one row. -/
structure Indexed (db : PackageKeys) : Prop where
  asymm_active : ∀ r ∈ db.asymmKeys, r.key.dropped = false
  asymm_nodup : (db.asymmKeys.map fun r => r.key.keyId).Nodup
  /-- A link has two ends. -/
  asymm_ends : ∀ r ∈ db.asymmKeys, ∀ vpn pair i, r.key.keyId = .pair vpn pair i → i < 2
  symm_active : ∀ r ∈ db.symmKeys, r.key.dropped = false
  symm_nodup : (db.symmKeys.map fun r => r.key.keyId).Nodup

/-- The key pair with a key id. -/
def HasKey (db : PackageKeys) (i : AsymmKeyId) (key : AsymmKey) : Prop :=
  ∃ r ∈ db.asymmKeys, r.key.keyId = i ∧ r.key = key

def HasPsk (db : PackageKeys) (i : SymmKeyId) (key : SymmKey) : Prop := ∃ r ∈ db.symmKeys, r.key.keyId = i ∧ r.key = key

variable {db other : PackageKeys}

theorem Indexed.mem_activeKeys {ι : Type} (h : db.Indexed) {place : AsymmKeyId → Option ι} {e : ι × AsymmKey} :
    e ∈ db.activeKeys place ↔ ∃ i, place i = some e.1 ∧ db.HasKey i e.2 := by
  rw [activeKeys, List.mem_filterMap]
  constructor
  · rintro ⟨r, hr, hentry⟩
    rw [h.asymm_active r hr, if_neg Bool.false_ne_true] at hentry
    obtain ⟨j, hj, rfl⟩ := Option.map_eq_some_iff.mp hentry
    exact ⟨_, hj, r, hr, rfl, rfl⟩
  · rintro ⟨i, hplace, r, hr, rfl, hkey⟩
    refine ⟨r, hr, ?_⟩
    rw [h.asymm_active r hr, if_neg Bool.false_ne_true, hplace, hkey]
    rfl

theorem Indexed.nodup_activeKeys {ι : Type} (h : db.Indexed) {place : AsymmKeyId → Option ι}
    (hinj : ∀ i i' j, place i = some j → place i' = some j → i = i') : ((db.activeKeys place).map Prod.fst).Nodup := by
  rw [activeKeys, List.map_filterMap]
  refine List.pairwise_filterMap.mpr ((List.pairwise_map.mp h.asymm_nodup).imp_of_mem
    fun {r r'} hr hr' hne j hj j' hj' => ?_)
  rw [h.asymm_active r hr, if_neg Bool.false_ne_true] at hj
  rw [h.asymm_active r' hr', if_neg Bool.false_ne_true] at hj'
  obtain ⟨e, he, rfl⟩ := Option.map_eq_some_iff.mp hj
  obtain ⟨i, hi, rfl⟩ := Option.map_eq_some_iff.mp he
  obtain ⟨e', he', rfl⟩ := Option.map_eq_some_iff.mp hj'
  obtain ⟨i', hi', rfl⟩ := Option.map_eq_some_iff.mp he'
  intro heq
  obtain rfl : i = i' := heq
  exact hne (hinj _ _ i hi hi')

theorem Indexed.rootKey_eq_some_iff (h : db.Indexed) {vpn : Vpn} {key : AsymmKey} :
    db.rootKey vpn = some key ↔ db.HasKey (.root vpn) key := by
  have hmem : ∀ e, e ∈ db.activeKeys (rootPlace vpn) ↔ db.HasKey (.root vpn) e.2 := by
    intro e
    rw [h.mem_activeKeys]
    simp only [UvnKeys.rootPlace_eq_some_iff, exists_eq_left]
  have hnodup : ((db.activeKeys (rootPlace vpn)).map Prod.fst).Nodup := h.nodup_activeKeys fun i i' j hi hi' => by
    rw [UvnKeys.rootPlace_eq_some_iff.mp hi, UvnKeys.rootPlace_eq_some_iff.mp hi']
  rw [rootKey]
  constructor
  · intro hkey
    obtain ⟨e, he, rfl⟩ := Option.map_eq_some_iff.mp hkey
    exact (hmem e).mp (List.mem_of_mem_head? he)
  · intro hkey
    have he := (hmem ((), key)).mpr hkey
    cases hlist : db.activeKeys (rootPlace vpn) with
    | nil => rw [hlist] at he; exact absurd he List.not_mem_nil
    | cons e rest =>
      rw [hlist] at he hnodup
      rw [show e = ((), key) from List.inj_on_of_nodup_map hnodup List.mem_cons_self he rfl]
      rfl

theorem Indexed.get?_peerKeys_eq_some_iff (h : db.Indexed) {vpn : Vpn} {p : ℕ} {key : AsymmKey} :
    (db.peerKeys vpn).get? p = some key ↔ db.HasKey (.peer vpn p) key := by
  have hnodup : ((db.activeKeys (peerPlace vpn)).map Prod.fst).Nodup := h.nodup_activeKeys fun i i' j hi hi' => by
    rw [UvnKeys.peerPlace_eq_some_iff.mp hi, UvnKeys.peerPlace_eq_some_iff.mp hi']
  rw [peerKeys, Dict.get?_eq_some_iff, Dict.foldl_set _ _ (by simpa using hnodup)]
  have hmem := @Indexed.mem_activeKeys _ _ h (peerPlace vpn) (p, key)
  simp only [UvnKeys.peerPlace_eq_some_iff, exists_eq_left] at hmem
  simpa using hmem

theorem Indexed.get?_presharedKeys_eq_some_iff (h : db.Indexed) {vpn : Vpn} {pair : ℕ × ℕ} {key : SymmKey} :
    (db.presharedKeys vpn).get? pair = some key ↔ db.HasPsk ⟨vpn, pair⟩ key := by
  have hmem : ∀ e, e ∈ db.activePsks vpn ↔ db.HasPsk ⟨vpn, e.1⟩ e.2 := by
    intro e
    rw [activePsks, List.mem_filterMap]
    constructor
    · rintro ⟨r, hr, hentry⟩
      split_ifs at hentry with hskip
      obtain rfl := Option.some.inj hentry
      exact ⟨r, hr, by rw [← not_not.mp (not_or.mp hskip).2], rfl⟩
    · rintro ⟨r, hr, hid, hkey⟩
      refine ⟨r, hr, ?_⟩
      rw [if_neg (by simp [h.symm_active r hr, hid]), hkey, ← hkey, hid, hkey]
  have hnodup : ((db.activePsks vpn).map Prod.fst).Nodup := by
    rw [activePsks, List.map_filterMap]
    refine List.pairwise_filterMap.mpr ((List.pairwise_map.mp h.symm_nodup).imp fun {r r'} hne j hj j' hj' => ?_)
    obtain ⟨e, he, rfl⟩ := Option.map_eq_some_iff.mp hj
    obtain ⟨e', he', rfl⟩ := Option.map_eq_some_iff.mp hj'
    split_ifs at he he' with hskip hskip'
    obtain rfl := Option.some.inj he
    obtain rfl := Option.some.inj he'
    intro heq
    have hvpn := not_not.mp (not_or.mp hskip).2
    have hvpn' := not_not.mp (not_or.mp hskip').2
    apply hne
    cases hid : r.key.keyId
    cases hid' : r'.key.keyId
    simp_all
  rw [presharedKeys, Dict.get?_eq_some_iff, Dict.foldl_set _ _ (by simpa using hnodup)]
  simpa using hmem (pair, key)

theorem Indexed.get?_pairKeys (h : db.Indexed) {vpn : Vpn} {pair : ℕ × ℕ} {keys : AsymmKey × AsymmKey}
    (hfst : db.HasKey (.pair vpn pair 0) keys.1) (hsnd : db.HasKey (.pair vpn pair 1) keys.2) :
    (db.pairKeys vpn).get? pair = some [keys.1, keys.2] := by
  have hnodup : ((db.activeKeys (endPlace vpn)).map Prod.fst).Nodup := h.nodup_activeKeys fun i i' j hi hi' => by
    rw [UvnKeys.endPlace_eq_some_iff.mp hi, UvnKeys.endPlace_eq_some_iff.mp hi']
  have hmem : ∀ e, e ∈ db.activeKeys (endPlace vpn) ↔ db.HasKey (.pair vpn e.1.1 e.1.2) e.2 := by
    intro e
    rw [h.mem_activeKeys]
    simp only [UvnKeys.endPlace_eq_some_iff, exists_eq_left]
  have hunique : ∀ i key key', db.HasKey i key → db.HasKey i key' → key = key' := by
    rintro i key key' ⟨r, hr, hid, rfl⟩ ⟨r', hr', hid', rfl⟩
    rw [List.inj_on_of_nodup_map h.asymm_nodup hr hr' (hid.trans hid'.symm)]
  have hends : ∀ e, e ∈ (db.activeKeys (endPlace vpn)).filter (fun e => e.1.1 = pair) ↔
      e.1.1 = pair ∧ ends (some keys) e.1.2 = some e.2 := by
    rintro ⟨⟨pair', i⟩, key⟩
    rw [List.mem_filter, decide_eq_true_eq, and_comm, hmem]
    refine and_congr_right fun hpair => ?_
    subst hpair
    rcases i with - | - | i
    · exact ⟨fun hkey => congrArg some (hunique _ _ _ hfst hkey), fun heq => Option.some.inj heq ▸ hfst⟩
    · exact ⟨fun hkey => congrArg some (hunique _ _ _ hsnd hkey), fun heq => Option.some.inj heq ▸ hsnd⟩
    · constructor
      · rintro ⟨r, hr, hid, -⟩
        exact absurd (h.asymm_ends r hr vpn _ (i + 2) hid) (by omega)
      · intro heq
        cases heq
  have hupdate := Dict.get?_foldl_update
    (fun (o : Option (List AsymmKey)) (e : ((ℕ × ℕ) × ℕ) × AsymmKey) => insertAt (o.getD []) e.1.2 e.2) (fun e => e.1.1)
    (db.activeKeys (endPlace vpn)) ∅ pair
  exact hupdate.trans (foldl_insertAt pair ((List.Nodup.of_map _ hnodup).filter _) hends)

/-! ### The tables after an import -/

theorem asymm_clashes_of_keyId {r row : KeyRow AsymmKey} (hr : r.key.dropped = false) (hrow : row.key.dropped = false)
    (h : row.key.keyId = r.key.keyId) : asymmRowKeys.clashes r row = true := by
  simp [asymmRowKeys, hr, hrow, h]

theorem symm_clashes_of_keyId {r row : KeyRow SymmKey} (hr : r.key.dropped = false) (hrow : row.key.dropped = false)
    (h : row.key.keyId = r.key.keyId) : symmRowKeys.clashes r row = true := by
  simp [symmRowKeys, hr, hrow, h]

/-- Tables that one import can bring in: no key replaces another one of them. -/
structure Importable (other : PackageKeys) : Prop extends other.Indexed where
  asymm_ids : (other.asymmKeys.map KeyRow.id).Nodup
  asymm_clash : ∀ r ∈ other.asymmKeys, ∀ r' ∈ other.asymmKeys, r.key.keyId ≠ r'.key.keyId →
    asymmRowKeys.clashes r' r = false
  symm_ids : (other.symmKeys.map KeyRow.id).Nodup
  symm_clash : ∀ r ∈ other.symmKeys, ∀ r' ∈ other.symmKeys, r.key.keyId ≠ r'.key.keyId →
    symmRowKeys.clashes r' r = false

/-- The ids of rows were given out once, to one key id each. -/
structure SameIds (db other : PackageKeys) : Prop where
  asymm : ∀ row ∈ db.asymmKeys, ∀ r ∈ other.asymmKeys, row.id = r.id → row.key.keyId = r.key.keyId
  symm : ∀ row ∈ db.symmKeys, ∀ r ∈ other.symmKeys, row.id = r.id → row.key.keyId = r.key.keyId

/-- What an import leaves. -/
structure ImportedKeys (db other out : PackageKeys) : Prop where
  indexed : out.Indexed
  asymm : RowKeys.Imported (fun r : KeyRow AsymmKey => r.key.keyId) db.asymmKeys other.asymmKeys out.asymmKeys
  symm : RowKeys.Imported (fun r : KeyRow SymmKey => r.key.keyId) db.symmKeys other.symmKeys out.symmKeys

theorem Indexed.importOther (h : db.Indexed) (hother : other.Importable) (hids : db.SameIds other) (orders : KeyOrders) :
    ∃ out, db.importOther orders other = .ok out ∧ ImportedKeys db other out := by
  obtain ⟨asymm, hasymm, himported⟩ := RowKeys.exists_imported (List.mergeSort_perm other.asymmKeys _) h.asymm_nodup
    hother.asymm_nodup hother.asymm_ids hother.asymm_clash
    (fun row hrow r hr heq => asymm_clashes_of_keyId (hother.asymm_active r hr) (h.asymm_active row hrow) heq) hids.asymm
  obtain ⟨symm, hsymm, himported'⟩ := RowKeys.exists_imported (List.mergeSort_perm other.symmKeys _) h.symm_nodup
    hother.symm_nodup hother.symm_ids hother.symm_clash
    (fun row hrow r hr heq => symm_clashes_of_keyId (hother.symm_active r hr) (h.symm_active row hrow) heq) hids.symm
  refine ⟨⟨asymm, symm⟩, by rw [PackageKeys.importOther, hasymm, hsymm], ?_, himported, himported'⟩
  refine ⟨fun r hr => ?_, himported.nodup, fun r hr => ?_, fun r hr => ?_, himported'.nodup⟩
  · exact (himported.kept r hr).elim (h.asymm_active r) (hother.asymm_active r)
  · exact (himported.kept r hr).elim (h.asymm_ends r) (hother.asymm_ends r)
  · exact (himported'.kept r hr).elim (h.symm_active r) (hother.symm_active r)

variable {out : PackageKeys}

theorem ImportedKeys.hasKey_iff (h : ImportedKeys db other out) {i : AsymmKeyId} {key' : AsymmKey}
    (hkey' : other.HasKey i key') (key : AsymmKey) : out.HasKey i key ↔ other.HasKey i key := by
  obtain ⟨r', hr', hid', -⟩ := hkey'
  constructor
  · rintro ⟨r, hr, hid, rfl⟩
    rw [h.asymm.eq_record hr hr' (hid.trans hid'.symm)]
    exact ⟨r', hr', hid', rfl⟩
  · rintro ⟨r, hr, hid, rfl⟩
    exact ⟨r, h.asymm.written r hr, hid, rfl⟩

theorem ImportedKeys.hasPsk_iff (h : ImportedKeys db other out) {i : SymmKeyId} {key' : SymmKey}
    (hkey' : other.HasPsk i key') (key : SymmKey) : out.HasPsk i key ↔ other.HasPsk i key := by
  obtain ⟨r', hr', hid', -⟩ := hkey'
  constructor
  · rintro ⟨r, hr, hid, rfl⟩
    rw [h.symm.eq_record hr hr' (hid.trans hid'.symm)]
    exact ⟨r', hr', hid', rfl⟩
  · rintro ⟨r, hr, hid, rfl⟩
    exact ⟨r, h.symm.written r hr, hid, rfl⟩

end PackageKeys

/-! ### The tables of a package -/

namespace UvnKeys

variable {k : UvnKeys} {cell : ℕ} {enableParticlesVpn : Bool}

theorem exists_asymmAt_of_visibleKey {i : AsymmKeyId} {key : AsymmKey}
    (h : k.visibleKey cell enableParticlesVpn i = some key) :
    ∃ full, k.asymmAt i = some full ∧ key.publicKey = full.publicKey ∧
      (key.privateKey = full.privateKey ∨ key.privateKey = none) := by
  unfold visibleKey at h
  split_ifs at h
  · exact ⟨key, h, rfl, .inl rfl⟩
  · obtain ⟨full, hfull, rfl⟩ := Option.map_eq_some_iff.mp h
    exact ⟨full, hfull, rfl, .inr rfl⟩

theorem Valid.mem_asymmKeys (h : k.Valid) {r : KeyRow AsymmKey} :
    r ∈ (k.packageRows cell enableParticlesVpn).asymmKeys ↔
      ∃ key, k.visibleKey cell enableParticlesVpn key.keyId = some key ∧ r = ⟨k.asymmId key.keyId, key⟩ := by
  rw [h.asymmKeys_eq, List.mem_filterMap]
  constructor
  · rintro ⟨i, -, hrow⟩
    obtain ⟨key, hkey, rfl⟩ := Option.map_eq_some_iff.mp hrow
    obtain ⟨rfl, -⟩ := h.of_visibleKey hkey
    exact ⟨key, hkey, rfl⟩
  · rintro ⟨key, hkey, rfl⟩
    exact ⟨key.keyId, mem_keyIds_of_visibleKey hkey, by rw [hkey]; rfl⟩

theorem Valid.mem_symmKeys (h : k.Valid) {r : KeyRow SymmKey} :
    r ∈ (k.packageRows cell enableParticlesVpn).symmKeys ↔
      ∃ key, k.visiblePsk cell enableParticlesVpn key.keyId = some key ∧ r = ⟨k.symmId key.keyId, key⟩ := by
  rw [packageRows, List.mem_filterMap]
  constructor
  · rintro ⟨i, hi, hrow⟩
    obtain ⟨key, hkey, rfl⟩ := symmRowAt_eq_some_iff.mp hrow
    obtain ⟨rfl, -⟩ := h.symm i key hkey
    exact ⟨key, by rw [visiblePsk, if_pos (mem_privatePlaces_symm.mp hi), hkey], rfl⟩
  · rintro ⟨key, hkey, rfl⟩
    unfold visiblePsk at hkey
    split_ifs at hkey with hown
    exact ⟨key.keyId, mem_privatePlaces_symm.mpr hown, by rw [symmRowAt, hkey]; rfl⟩

theorem Valid.hasKey_iff (h : k.Valid) {i : AsymmKeyId} {key : AsymmKey} :
    (k.packageRows cell enableParticlesVpn).HasKey i key ↔ k.visibleKey cell enableParticlesVpn i = some key := by
  constructor
  · rintro ⟨r, hr, rfl, rfl⟩
    obtain ⟨key, hkey, rfl⟩ := h.mem_asymmKeys.mp hr
    exact hkey
  · intro hkey
    obtain ⟨rfl, -⟩ := h.of_visibleKey hkey
    exact ⟨_, h.mem_asymmKeys.mpr ⟨key, hkey, rfl⟩, rfl, rfl⟩

theorem Valid.of_visiblePsk (h : k.Valid) {i : SymmKeyId} {key : SymmKey}
    (hkey : k.visiblePsk cell enableParticlesVpn i = some key) : k.symmAt i = some key ∧ key.keyId = i := by
  unfold visiblePsk at hkey
  split_ifs at hkey
  exact ⟨hkey, (h.symm i key hkey).1⟩

theorem Valid.hasPsk_iff (h : k.Valid) {i : SymmKeyId} {key : SymmKey} :
    (k.packageRows cell enableParticlesVpn).HasPsk i key ↔ k.visiblePsk cell enableParticlesVpn i = some key := by
  constructor
  · rintro ⟨r, hr, rfl, rfl⟩
    obtain ⟨key, hkey, rfl⟩ := h.mem_symmKeys.mp hr
    exact hkey
  · intro hkey
    obtain ⟨-, rfl⟩ := h.of_visiblePsk hkey
    exact ⟨_, h.mem_symmKeys.mpr ⟨key, hkey, rfl⟩, rfl, rfl⟩

theorem Valid.importable (h : k.Valid) : (k.packageRows cell enableParticlesVpn).Importable := by
  have hasymm : (k.packageRows cell enableParticlesVpn).asymmKeys.Pairwise fun r r' => r.key.keyId ≠ r'.key.keyId := by
    rw [h.asymmKeys_eq]
    refine List.pairwise_filterMap.mpr ((h.nodup_asymm cell enableParticlesVpn).imp fun {i j} hne r hr r' hr' => ?_)
    obtain ⟨key, hkey, rfl⟩ := Option.map_eq_some_iff.mp hr
    obtain ⟨key', hkey', rfl⟩ := Option.map_eq_some_iff.mp hr'
    show key.keyId ≠ key'.keyId
    rw [(h.of_visibleKey hkey).1, (h.of_visibleKey hkey').1]
    exact hne
  have hsymm : (k.packageRows cell enableParticlesVpn).symmKeys.Pairwise fun r r' => r.key.keyId ≠ r'.key.keyId := by
    refine List.pairwise_filterMap.mpr ((h.nodup_symm cell enableParticlesVpn).imp fun {i j} hne r hr r' hr' => ?_)
    obtain ⟨key, hkey, rfl⟩ := symmRowAt_eq_some_iff.mp hr
    obtain ⟨key', hkey', rfl⟩ := symmRowAt_eq_some_iff.mp hr'
    show key.keyId ≠ key'.keyId
    rw [(h.symm i key hkey).1, (h.symm j key' hkey').1]
    exact hne
  refine ⟨⟨fun r hr => ?_, List.pairwise_map.mpr hasymm, fun r hr vpn pair i hid => ?_, fun r hr => ?_,
    List.pairwise_map.mpr hsymm⟩, ?_, fun r hr r' hr' hne => ?_, ?_, fun r hr r' hr' hne => ?_⟩
  · obtain ⟨key, hkey, rfl⟩ := h.mem_asymmKeys.mp hr
    exact (h.of_visibleKey hkey).2
  · obtain ⟨key, hkey, rfl⟩ := h.mem_asymmKeys.mp hr
    obtain ⟨full, hfull, -⟩ := exists_asymmAt_of_visibleKey hkey
    rw [show key.keyId = .pair vpn pair i from hid] at hfull
    by_contra hi
    obtain ⟨i, rfl⟩ : ∃ j, i = j + 2 := ⟨i - 2, by omega⟩
    cases vpn <;> cases hfull
  · obtain ⟨key, hkey, rfl⟩ := h.mem_symmKeys.mp hr
    exact (h.symm _ _ (h.of_visiblePsk hkey).1).2.1
  · refine List.pairwise_map.mpr (hasymm.imp_of_mem fun {r r'} hr hr' hne heq => hne ?_)
    obtain ⟨key, -, rfl⟩ := h.mem_asymmKeys.mp hr
    obtain ⟨key', -, rfl⟩ := h.mem_asymmKeys.mp hr'
    exact h.asymmId heq
  · obtain ⟨key, hkey, rfl⟩ := h.mem_asymmKeys.mp hr
    obtain ⟨key', hkey', rfl⟩ := h.mem_asymmKeys.mp hr'
    obtain ⟨full, hfull, hpublic, hprivate⟩ := exists_asymmAt_of_visibleKey hkey
    obtain ⟨full', hfull', hpublic', hprivate'⟩ := exists_asymmAt_of_visibleKey hkey'
    have hne' : key'.keyId ≠ key.keyId := fun heq => hne heq.symm
    have hpub : key'.publicKey ≠ key.publicKey := fun heq =>
      hne' (h.asymm_unique _ _ _ _ hfull' hfull (.inl (by rw [← hpublic', ← hpublic, heq])))
    have hpriv : sqlEq key'.privateKey key.privateKey = false := by
      refine decide_eq_false ?_
      rintro ⟨heq, hsome⟩
      rcases hprivate' with hprivate' | hnone
      · rcases hprivate with hprivate | hnone
        · exact hne' (h.asymm_unique _ _ _ _ hfull' hfull (.inr (by rw [← hprivate', ← hprivate, heq])))
        · exact hsome (heq.trans hnone)
      · exact hsome hnone
    simp [asymmRowKeys, hne', hpub, hpriv]
  · refine List.pairwise_map.mpr (hsymm.imp_of_mem fun {r r'} hr hr' hne heq => hne ?_)
    obtain ⟨key, -, rfl⟩ := h.mem_symmKeys.mp hr
    obtain ⟨key', -, rfl⟩ := h.mem_symmKeys.mp hr'
    exact h.symmId heq
  · obtain ⟨key, hkey, rfl⟩ := h.mem_symmKeys.mp hr
    obtain ⟨key', hkey', rfl⟩ := h.mem_symmKeys.mp hr'
    have hne' : key'.keyId ≠ key.keyId := fun heq => hne heq.symm
    have hvalue : key'.value ≠ key.value := fun heq =>
      hne' (h.symm_unique _ _ _ _ (h.of_visiblePsk hkey').1 (h.of_visiblePsk hkey).1 heq)
    simp [symmRowKeys, sqlEq, hne', hvalue]

end UvnKeys

/-! ### What an agent reads after an import -/

namespace PackageKeys

variable {db other out : PackageKeys}

theorem ImportedKeys.rootKey_eq (h : ImportedKeys db other out) (hother : other.Indexed) {vpn : Vpn} {key : AsymmKey}
    (hkey : other.HasKey (.root vpn) key) : out.rootKey vpn = other.rootKey vpn := by
  rw [hother.rootKey_eq_some_iff.mpr hkey]
  exact h.indexed.rootKey_eq_some_iff.mpr ((h.hasKey_iff hkey key).mpr hkey)

theorem ImportedKeys.get?_peerKeys_eq (h : ImportedKeys db other out) (hother : other.Indexed) {vpn : Vpn} {p : ℕ}
    {key : AsymmKey} (hkey : other.HasKey (.peer vpn p) key) :
    (out.peerKeys vpn).get? p = (other.peerKeys vpn).get? p := by
  rw [hother.get?_peerKeys_eq_some_iff.mpr hkey]
  exact h.indexed.get?_peerKeys_eq_some_iff.mpr ((h.hasKey_iff hkey key).mpr hkey)

theorem ImportedKeys.get?_presharedKeys_eq (h : ImportedKeys db other out) (hother : other.Indexed) {vpn : Vpn}
    {pair : ℕ × ℕ} {key : SymmKey} (hkey : other.HasPsk ⟨vpn, pair⟩ key) :
    (out.presharedKeys vpn).get? pair = (other.presharedKeys vpn).get? pair := by
  rw [hother.get?_presharedKeys_eq_some_iff.mpr hkey]
  exact h.indexed.get?_presharedKeys_eq_some_iff.mpr ((h.hasPsk_iff hkey key).mpr hkey)

theorem ImportedKeys.get?_pairKeys_eq (h : ImportedKeys db other out) (hother : other.Indexed) {vpn : Vpn}
    {pair : ℕ × ℕ} {keys : AsymmKey × AsymmKey} (hfst : other.HasKey (.pair vpn pair 0) keys.1)
    (hsnd : other.HasKey (.pair vpn pair 1) keys.2) : (out.pairKeys vpn).get? pair = (other.pairKeys vpn).get? pair := by
  rw [hother.get?_pairKeys hfst hsnd]
  exact h.indexed.get?_pairKeys ((h.hasKey_iff hfst _).mpr hfst) ((h.hasKey_iff hsnd _).mpr hsnd)

end PackageKeys

namespace UvnKeys

variable {k : UvnKeys} {cell : ℕ} {enableParticlesVpn : Bool}

theorem Valid.exists_hasKey (h : k.Valid) (hkeys : k.HasKeysOf cell enableParticlesVpn) {i : AsymmKeyId}
    (hi : k.OwnKey cell enableParticlesVpn i ∨ k.PeerKey cell enableParticlesVpn i) :
    ∃ key, (k.packageRows cell enableParticlesVpn).HasKey i key := by
  simp only [h.hasKey_iff]
  rw [← Option.ne_none_iff_exists']
  rcases hi with hown | hpeer
  · obtain ⟨place, hplace, hasymm⟩ := List.mem_filterMap.mp (mem_privatePlaces_asymm.mpr hown)
    have hmaterial := hkeys.1 place hplace
    cases place with
    | symm _ => cases hasymm
    | asymm j =>
      obtain rfl : j = i := Option.some.inj hasymm
      rw [visibleKey_own hown]
      rwa [materialAt, ne_eq, Option.map_eq_none_iff] at hmaterial
  · rw [h.visibleKey_peer hpeer, ne_eq, Option.map_eq_none_iff]
    exact hkeys.2 i (mem_publicPlaces.mpr hpeer)

theorem Valid.exists_hasPsk (h : k.Valid) (hkeys : k.HasKeysOf cell enableParticlesVpn) {i : SymmKeyId}
    (hown : k.OwnPsk cell enableParticlesVpn i) : ∃ key, (k.packageRows cell enableParticlesVpn).HasPsk i key := by
  simp only [h.hasPsk_iff]
  rw [← Option.ne_none_iff_exists']
  obtain ⟨place, hplace, hsymm⟩ := List.mem_filterMap.mp (mem_privatePlaces_symm.mpr hown)
  have hmaterial := hkeys.1 place hplace
  cases place with
  | asymm _ => cases hsymm
  | symm j =>
    obtain rfl : j = i := Option.some.inj hsymm
    rw [visiblePsk, if_pos hown]
    rwa [materialAt, ne_eq, Option.map_eq_none_iff] at hmaterial

theorem Valid.holds_imported (h : k.Valid) (hkeys : k.HasKeysOf cell enableParticlesVpn) {db out : PackageKeys}
    (himported : PackageKeys.ImportedKeys db (k.packageRows cell enableParticlesVpn) out) {b : ℕ}
    (hpair : pairKey cell b ∈ k.pairsOf cell) (hpsk : pairKey cell b ∈ k.backbone.presharedKeys.keys)
    {keys : WireGuardKeyPair × WireGuardKeyPair} {psk : String}
    (hholds : (k.packageRows cell enableParticlesVpn).backboneKeymat.Holds cell b keys psk) :
    out.backboneKeymat.Holds cell b keys psk := by
  have hindexed := (@Valid.importable _ cell enableParticlesVpn h).toIndexed
  have hend := (mem_pairsOf.mp hpair).2
  -- both halves are among the cell's keys
  have hhalf : ∀ i, i < 2 →
      ∃ key, (k.packageRows cell enableParticlesVpn).HasKey (.pair .backbone (pairKey cell b) i) key := by
    intro i hi
    refine h.exists_hasKey hkeys ?_
    by_cases hfirst : (pairKey cell b).1 = cell
    · rcases i with - | - | i
      · exact .inl (.inr (.inl ⟨_, hpair, by rw [ownHalf, if_pos hfirst]⟩))
      · exact .inr (.inr (.inl ⟨_, hpair, by rw [otherHalf, if_pos hfirst]⟩))
      · omega
    · rcases i with - | - | i
      · exact .inr (.inr (.inl ⟨_, hpair, by rw [otherHalf, if_neg hfirst]⟩))
      · exact .inl (.inr (.inl ⟨_, hpair, by rw [ownHalf, if_neg hfirst]⟩))
      · omega
  obtain ⟨fst, hfst⟩ := hhalf 0 (by omega)
  obtain ⟨snd, hsnd⟩ := hhalf 1 (by omega)
  obtain ⟨key, hkey⟩ := h.exists_hasPsk hkeys (.inr (.inl ⟨_, hpsk, hend, rfl⟩))
  have hpairs := @PackageKeys.ImportedKeys.get?_pairKeys_eq _ _ _ himported hindexed _ _ (fst, snd) hfst hsnd
  have hpsks := himported.get?_presharedKeys_eq hindexed hkey
  obtain ⟨hpairKeys, hpresharedKeys⟩ := hholds
  rw [PackageKeys.backboneKeymat, Dict.get?_map] at hpairKeys hpresharedKeys
  refine ⟨?_, ?_⟩
  · rw [PackageKeys.backboneKeymat, Dict.get?_map, hpairs]
    exact hpairKeys
  · rw [PackageKeys.backboneKeymat, Dict.get?_map, hpsks]
    exact hpresharedKeys

end UvnKeys

/-! ### The configurations of an agent -/

/-- The agent of a cell computes from its database what the registry computes. -/
structure CellPackage.Configures (db : CellPackage) (setup : Setup) (t : RegistryState) (c : CellRow) : Prop where
  root : db.rootVpn.map (fun v => v.peerConfig c.id) = (t.rootVpn setup).map (fun v => v.peerConfig c.id)
  particles : (db.particlesVpn c).map CentralizedVpnConfig.rootConfig =
    (t.particlesVpn setup c).map CentralizedVpnConfig.rootConfig
  backbone : db.backboneVpn = t.backboneVpn setup
  links : ∀ vpn, t.backboneVpn setup = some vpn → vpn.peerConfig setup.linkSource c.id t.keys.backboneVpn =
    vpn.readonlyPeerConfig c.id db.keys.backboneKeymat >>= fun cfgs => .ok (cfgs, t.keys.backboneVpn)

namespace RegistryState

variable {setup : Setup} {ids : KeyRowIds} {t : RegistryState} {c : CellRow} {db out : PackageKeys}

theorem root_configuration_imported (hvalid : (t.uvnKeys setup ids).Valid) (hc : 0 < c.id)
    (hkeys : (t.uvnKeys setup ids).HasKeysOf c.id (c.enableParticlesVpn setup.settings))
    (himported : PackageKeys.ImportedKeys db
      ((t.uvnKeys setup ids).packageRows c.id (c.enableParticlesVpn setup.settings)) out) :
    (rootVpnConfig (t.savedSettings setup) t.uvn (out.keymat .root t.uvn.activeIds)).map (fun v => v.peerConfig c.id) =
      (t.rootVpn setup).map fun v => v.peerConfig c.id := by
  refine Eq.trans ?_ (root_configuration_eq hvalid hc rfl)
  have hindexed := (@UvnKeys.Valid.importable _ c.id (c.enableParticlesVpn setup.settings) hvalid).toIndexed
  obtain ⟨own, hown⟩ := hvalid.exists_hasKey hkeys (.inl (.inl rfl))
  obtain ⟨root, hroot⟩ := hvalid.exists_hasKey hkeys (.inr (.inl rfl))
  obtain ⟨psk, hpsk⟩ := hvalid.exists_hasPsk hkeys (.inl rfl)
  rw [rootVpnConfig, rootVpnConfig]
  split_ifs
  · refine congrArg some (CentralizedVpnConfig.peerConfig_congr (v := ⟨_, _, _, _, _⟩) hc ?_ ?_ ?_)
    · exact himported.get?_peerKeys_eq hindexed hown
    · rw [UvnKeys.pairKey_zero]
      exact himported.get?_presharedKeys_eq hindexed hpsk
    · exact congrArg (Option.map AsymmKey.publicKey) (himported.rootKey_eq hindexed hroot)
  · rfl

theorem particles_configuration_imported (hvalid : (t.uvnKeys setup ids).Valid)
    (hpos : ∀ p ∈ t.uvn.particleRows, 0 < p.id)
    (hkeys : (t.uvnKeys setup ids).HasKeysOf c.id (c.enableParticlesVpn setup.settings))
    (himported : PackageKeys.ImportedKeys db
      ((t.uvnKeys setup ids).packageRows c.id (c.enableParticlesVpn setup.settings)) out) :
    (Uno.particlesVpn (t.savedSettings setup) t.uvn c (out.keymat (.particles c.id) t.uvn.activeParticleIds)).map
      CentralizedVpnConfig.rootConfig = (t.particlesVpn setup c).map CentralizedVpnConfig.rootConfig := by
  refine Eq.trans ?_ (particles_configuration_eq hvalid hpos rfl)
  have hindexed := (@UvnKeys.Valid.importable _ c.id (c.enableParticlesVpn setup.settings) hvalid).toIndexed
  rw [Uno.particlesVpn, Uno.particlesVpn, show c.enableParticlesVpn (t.savedSettings setup) =
    c.enableParticlesVpn setup.settings from rfl]
  split_ifs with henabled
  · have hmem : ∀ p ∈ (t.uvn.particles.map ParticleRow.id).insertionSort (· ≤ ·), p ∈ t.uvn.activeParticleIds :=
      fun p hp => (List.mem_insertionSort _).mp hp
    obtain ⟨root, hroot⟩ := hvalid.exists_hasKey hkeys (.inl (.inr (.inr ⟨henabled, rfl⟩)))
    refine congrArg some (CentralizedVpnConfig.rootConfig_congr (v := ⟨_, _, _, _, _⟩) ?_ (fun p hp => ?_)
      (fun p hp => ?_) fun p hp => ?_)
    · exact himported.rootKey_eq hindexed hroot
    · obtain ⟨q, hq, rfl⟩ := List.mem_map.mp (hmem p hp)
      exact hpos q (List.mem_of_mem_filter hq)
    · obtain ⟨key, hkey⟩ := hvalid.exists_hasKey hkeys (.inr (.inr (.inr ⟨henabled, p, hmem p hp, rfl⟩)))
      exact congrArg (Option.map AsymmKey.publicKey) (himported.get?_peerKeys_eq hindexed hkey)
    · obtain ⟨psk, hpsk⟩ := hvalid.exists_hasPsk hkeys (.inr (.inr ⟨henabled, p, hmem p hp, rfl⟩))
      rw [UvnKeys.pairKey_zero]
      exact himported.get?_presharedKeys_eq hindexed hpsk
  · rfl

theorem sameFor_imported (hvalid : (t.uvnKeys setup ids).Valid) {a b : ℕ} (hne : a ≠ b) {enableParticlesVpn : Bool}
    (hkeys : (t.uvnKeys setup ids).HasKeysOf a enableParticlesVpn)
    (himported : PackageKeys.ImportedKeys db ((t.uvnKeys setup ids).packageRows a enableParticlesVpn) out)
    {keys : WireGuardKeyPair × WireGuardKeyPair} {psk : String} (hholds : t.keys.backboneVpn.Holds a b keys psk) :
    P2pVpnConfig.SameFor t.keys.backboneVpn out.backboneKeymat a b := by
  have hend : HasEnd (pairKey a b) a := by
    unfold pairKey
    split_ifs
    · exact .inr rfl
    · exact .inl rfl
  have hpair : pairKey a b ∈ (t.uvnKeys setup ids).pairsOf a := by
    refine UvnKeys.mem_pairsOf.mpr ⟨⟨(keys.1.toKey (pairKey a b) 0, keys.2.toKey (pairKey a b) 1), ?_⟩, hend⟩
    refine (Dict.get?_mapEntries _ _ _).trans ?_
    rw [hholds.1]
    rfl
  have hpsk : pairKey a b ∈ (t.uvnKeys setup ids).backbone.presharedKeys.keys := by
    refine Dict.mem_keys_iff.mpr ⟨⟨⟨.backbone, pairKey a b⟩, some psk, false⟩, ?_⟩
    refine (Dict.get?_mapEntries _ _ _).trans ?_
    rw [hholds.2]
    rfl
  obtain ⟨keys₀, keys', psk', hregistry, hpackage, hown, hother⟩ := sameFor_of_holds hvalid hne hholds enableParticlesVpn
  exact ⟨keys₀, keys', psk', hregistry, hvalid.holds_imported hkeys himported hpair hpsk hpackage, hown, hother⟩

/-- With the keys of the package imported into any others, the agent computes what the registry computes. -/
theorem Complete.configures (h : t.Complete setup) (hlinks : t.LinkKeys) (hvalid : (t.uvnKeys setup ids).Valid)
    (hc : c ∈ t.uvn.cells) (hkeys : (t.uvnKeys setup ids).HasKeysOf c.id (c.enableParticlesVpn setup.settings))
    (himported : PackageKeys.ImportedKeys db
      ((t.uvnKeys setup ids).packageRows c.id (c.enableParticlesVpn setup.settings)) out) :
    CellPackage.Configures ⟨t.uvn, t.savedSettings setup, t.deployment, out⟩ setup t c where
  root := root_configuration_imported hvalid (h.cellIds_pos c (Uvn.mem_cells.mp hc).1) hkeys himported
  particles := particles_configuration_imported hvalid h.particleIds_pos hkeys himported
  backbone := by
    show t.deployment.map _ = t.deployment.map _
    cases hd : t.deployment with
    | none => rfl
    | some d =>
      have hsaved : (t.savedSettings setup).backboneVpn =
          (Uno.backboneVpn setup.settings.backboneVpn t.uvn.backboneCells d).settings := by
        rw [savedSettings, backboneVpn, hd, Option.map_some, Option.map_some, Option.getD_some]
      rw [Option.map_some, Option.map_some, hsaved, backboneVpn_settings]
  links := by
    intro vpn hvpn
    obtain ⟨d, hd, rfl⟩ := Option.map_eq_some_iff.mp hvpn
    unfold LinkKeys at hlinks
    simp only [hd] at hlinks
    have hmem : c.id ∈ (Uno.backboneVpn setup.settings.backboneVpn t.uvn.backboneCells d).peerIds := by
      refine (List.mem_insertionSort _).mpr (List.mem_map.mpr ⟨(c.id, c.toCell), ?_, rfl⟩)
      exact List.mem_map_of_mem (f := fun c : CellRow => (c.id, c.toCell)) hc
    refine P2pVpnConfig.readonlyPeerConfig_eq fun p b hp hb => ?_
    obtain ⟨keys, psk, hholds⟩ := h.kept.links _ hvpn c.id hmem p b hp hb
    refine sameFor_imported hvalid ?_ hkeys himported hholds
    rintro rfl
    exact hlinks.1 c.id ⟨p, hp, hb⟩

end RegistryState

/-! ### One package after the other -/

/-- A package of a cell that the registry made in a reachable state. -/
structure Handout (cell : ℕ) where
  setup : Setup
  state : RegistryState
  ids : KeyRowIds
  allowedIps : List String
  row : CellRow
  package : CellPackage
  row_id : row.id = cell
  reachable : state.Reachable setup
  unique : (state.uvnKeys setup ids).Unique
  mem : row ∈ state.uvn.cells
  made : state.cellPackage (setup.withAllowedIps allowedIps) ids row = .ok package

namespace Handout

variable {cell : ℕ} (h : Handout cell)

/-- The settings that the package was made with. -/
def usedSetup : Setup := h.setup.withAllowedIps h.allowedIps

def keys : UvnKeys := h.state.uvnKeys h.usedSetup h.ids

theorem complete : h.state.Complete h.usedSetup ∧ h.state.LinkKeys :=
  ⟨h.reachable.complete.1.withAllowedIps h.allowedIps, h.reachable.complete.2⟩

theorem valid : h.keys.Valid := h.reachable.complete.1.valid_uvnKeys h.reachable.complete.2 h.unique

theorem hasKeysOf : h.keys.HasKeysOf h.row.id (h.row.enableParticlesVpn h.usedSetup.settings) := by
  obtain ⟨keys, hkeys, -⟩ := Except.bind_eq_ok_iff.mp h.made
  exact (h.valid.of_generateCellDatabase (h.complete.1.cellIds_pos _ (Uvn.mem_cells.mp h.mem).1) hkeys).1

theorem package_eq : h.package = ⟨h.state.uvn, h.state.savedSettings h.usedSetup, h.state.deployment,
    h.keys.packageRows h.row.id (h.row.enableParticlesVpn h.usedSetup.settings)⟩ :=
  h.complete.1.of_cellPackage h.valid h.mem h.made

theorem importable : h.package.keys.Importable := by
  rw [h.package_eq]
  exact h.valid.importable

theorem asymm_id {r : KeyRow AsymmKey} (hr : r ∈ h.package.keys.asymmKeys) : r.id = h.ids.asymm r.key.keyId := by
  rw [h.package_eq] at hr
  obtain ⟨key, -, rfl⟩ := h.valid.mem_asymmKeys.mp hr
  rfl

theorem symm_id {r : KeyRow SymmKey} (hr : r ∈ h.package.keys.symmKeys) : r.id = h.ids.symm r.key.keyId := by
  rw [h.package_eq] at hr
  obtain ⟨key, -, rfl⟩ := h.valid.mem_symmKeys.mp hr
  rfl

theorem sameIds_of_ids {h h' : Handout cell} (hasymm : ∀ i j, h.ids.asymm i = h'.ids.asymm j → i = j)
    (hsymm : ∀ i j, h.ids.symm i = h'.ids.symm j → i = j) : h.package.keys.SameIds h'.package.keys := by
  constructor
  · intro row hrow r hr hid
    rw [h.asymm_id hrow, h'.asymm_id hr] at hid
    exact hasymm _ _ hid
  · intro row hrow r hr hid
    rw [h.symm_id hrow, h'.symm_id hr] at hid
    exact hsymm _ _ hid

theorem configures {db out : PackageKeys} (himported : PackageKeys.ImportedKeys db h.package.keys out) :
    CellPackage.Configures ⟨h.package.uvn, h.package.settings, h.package.deployment, out⟩ h.usedSetup h.state h.row := by
  rw [h.package_eq] at himported ⊢
  exact h.complete.1.configures h.complete.2 h.valid h.mem h.hasKeysOf himported

end Handout

/-- The database of an agent that was installed from a package and reloaded with others since. -/
def agentDatabase {cell : ℕ} (orders : KeyOrders) (first : Handout cell) (later : List (Handout cell)) :
    Result CellPackage :=
  later.foldlM (fun db h => db.importOther orders h.package) first.package

/-- What holds of the database after every package: its keys come from the packages so far. -/
structure Follows {cell : ℕ} (seen : List (Handout cell)) (last : Handout cell) (db : CellPackage) : Prop where
  indexed : db.keys.Indexed
  asymm : ∀ r ∈ db.keys.asymmKeys, ∃ h ∈ seen, r ∈ h.package.keys.asymmKeys
  symm : ∀ r ∈ db.keys.symmKeys, ∃ h ∈ seen, r ∈ h.package.keys.symmKeys
  configures : db.Configures last.usedSetup last.state last.row

namespace Follows

variable {cell : ℕ} {seen : List (Handout cell)} {last : Handout cell} {db : CellPackage}

theorem first (h : Handout cell) : Follows [h] h h.package := by
  have hself : PackageKeys.ImportedKeys h.package.keys h.package.keys h.package.keys :=
    ⟨h.importable.toIndexed, ⟨h.importable.asymm_nodup, fun _ hr => hr, fun _ => .inr⟩,
      ⟨h.importable.symm_nodup, fun _ hr => hr, fun _ => .inr⟩⟩
  exact ⟨h.importable.toIndexed, fun r hr => ⟨h, List.mem_singleton_self h, hr⟩,
    fun r hr => ⟨h, List.mem_singleton_self h, hr⟩, h.configures hself⟩

/-- A package whose row ids come from the same counter is imported. -/
theorem importOther (hdb : Follows seen last db) (orders : KeyOrders) (h : Handout cell)
    (hcounter : ∀ h' ∈ seen, h'.package.keys.SameIds h.package.keys) :
    ∃ db', db.importOther orders h.package = .ok db' ∧ Follows (seen ++ [h]) h db' := by
  have hids : db.keys.SameIds h.package.keys := by
    refine ⟨fun row hrow r hr hid => ?_, fun row hrow r hr hid => ?_⟩
    · obtain ⟨h', hh', hrow'⟩ := hdb.asymm row hrow
      exact (hcounter h' hh').asymm row hrow' r hr hid
    · obtain ⟨h', hh', hrow'⟩ := hdb.symm row hrow
      exact (hcounter h' hh').symm row hrow' r hr hid
  obtain ⟨out, hout, himported⟩ := hdb.indexed.importOther h.importable hids orders
  refine ⟨_, by rw [CellPackage.importOther, hout, Except.ok_bind], himported.indexed, fun r hr => ?_, fun r hr => ?_,
    h.configures himported⟩
  · rcases himported.asymm.kept r hr with hold | hnew
    · obtain ⟨h', hh', hr'⟩ := hdb.asymm r hold
      exact ⟨h', List.mem_append_left _ hh', hr'⟩
    · exact ⟨h, List.mem_append_right _ (List.mem_singleton_self h), hnew⟩
  · rcases himported.symm.kept r hr with hold | hnew
    · obtain ⟨h', hh', hr'⟩ := hdb.symm r hold
      exact ⟨h', List.mem_append_left _ hh', hr'⟩
    · exact ⟨h, List.mem_append_right _ (List.mem_singleton_self h), hnew⟩

theorem run (hdb : Follows seen last db) (orders : KeyOrders) (later : List (Handout cell))
    (hcounter : ∀ h ∈ seen ++ later, ∀ h' ∈ later, h.package.keys.SameIds h'.package.keys) :
    ∃ db', later.foldlM (fun db h => CellPackage.importOther orders db h.package) db = .ok db' ∧
      Follows (seen ++ later) (later.getLastD last) db' := by
  induction later generalizing seen last db with
  | nil => exact ⟨db, rfl, by rwa [List.append_nil]⟩
  | cons h rest ih =>
    obtain ⟨db₁, himport, hdb₁⟩ := hdb.importOther orders h fun h' hh' =>
      hcounter h' (List.mem_append_left _ hh') h List.mem_cons_self
    obtain ⟨db', hfold, hdb'⟩ := ih hdb₁ fun h₁ hh₁ h₂ hh₂ => by
      rw [List.append_assoc] at hh₁
      exact hcounter h₁ hh₁ h₂ (List.mem_cons_of_mem _ hh₂)
    refine ⟨db', ?_, ?_⟩
    · rw [List.foldlM_cons, himport]
      exact hfold
    · rw [List.append_assoc] at hdb'
      rwa [List.getLastD_cons]

end Follows

/-- A registry with two linked cells. -/
def linkedRun : Result RegistryState := do
  let s ← (create 1 (some "registry.example.com") true).generate packageSetup .unshuffled
  let s ← s.step packageSetup (.addCell none (some "a.example.com") [], .unshuffled)
  s.step packageSetup (.addCell none (some "b.example.com") [], .unshuffled)

def linkedState : RegistryState := linkedRun.toOption.getD (create 1 none false)

/-- The first cell gets new keys in the root VPN and in its particles VPN. -/
def rekeyedState : RegistryState :=
  (linkedState.step packageSetup (.rekeyCell 1 true true, .unshuffled)).toOption.getD (create 1 none false)

theorem reachable_linkedState : linkedState.Reachable packageSetup := by
  have hrun : linkedRun = .ok linkedState := rfl
  obtain ⟨s₀, hinit, hrun⟩ := Except.bind_eq_ok_iff.mp hrun
  obtain ⟨s₁, hfirst, hsecond⟩ := Except.bind_eq_ok_iff.mp hrun
  exact ⟨_, _, _, _, s₀, hinit, .step _ (.step _ .refl trivial hfirst) trivial hsecond⟩

theorem reachable_rekeyedState : rekeyedState.Reachable packageSetup := by
  obtain ⟨_, _, _, _, s₀, hinit, hrun⟩ := reachable_linkedState
  exact ⟨_, _, _, _, s₀, hinit, .step (.rekeyCell 1 true true, .unshuffled) hrun trivial rfl⟩

theorem double_add_inj {m n : ℕ} {a b : Bool} (h : 2 * m + a.toNat = 2 * n + b.toNat) : m = n := by
  have ha := a.toNat_le
  have hb := b.toNat_le
  omega

/-- The ids of the rows of keys, of which some are newer. -/
def rowIds (newAsymm : AsymmKeyId → Bool) (newSymm : SymmKeyId → Bool) : KeyRowIds where
  asymm i := 2 * UvnKeys.asymmNumber i + (newAsymm i).toNat
  symm i := 2 * UvnKeys.symmNumber i + (newSymm i).toNat
  asymm_injective _ _ h := UvnKeys.asymmNumber_injective (double_add_inj h)
  symm_injective _ _ h := UvnKeys.symmNumber_injective (double_add_inj h)

def linkedIds : KeyRowIds := rowIds (fun _ => false) fun _ => false

def rekeyedIds : KeyRowIds :=
  rowIds (fun i => i = .peer .root 1 ∨ i = .root (.particles 1)) fun i => i = ⟨.root, (0, 1)⟩

theorem asymm_rowIds {a b : AsymmKeyId → Bool} {c d : SymmKeyId → Bool} (i j : AsymmKeyId)
    (h : (rowIds a c).asymm i = (rowIds b d).asymm j) : i = j :=
  UvnKeys.asymmNumber_injective (double_add_inj h)

theorem symm_rowIds {a b : AsymmKeyId → Bool} {c d : SymmKeyId → Bool} (i j : SymmKeyId)
    (h : (rowIds a c).symm i = (rowIds b d).symm j) : i = j :=
  UvnKeys.symmNumber_injective (double_add_inj h)

theorem unique_linkedState : (linkedState.uvnKeys packageSetup linkedIds).Unique := by
  refine UvnKeys.unique_of_entries [1, 2] (fun c hc => ?_) (by decide +kernel) (by decide +kernel)
  match c, hc with
  | 0, _ => exact ⟨rfl, rfl, rfl⟩
  | c + 3, _ => exact ⟨rfl, rfl, rfl⟩

theorem unique_rekeyedState : (rekeyedState.uvnKeys packageSetup rekeyedIds).Unique := by
  refine UvnKeys.unique_of_entries [1, 2] (fun c hc => ?_) (by decide +kernel) (by decide +kernel)
  match c, hc with
  | 0, _ => exact ⟨rfl, rfl, rfl⟩
  | c + 3, _ => exact ⟨rfl, rfl, rfl⟩

def linkedCell (id : ℕ) (address : String) : CellRow := ⟨id, 1, some address, [], false⟩

theorem mem_linkedState : linkedState.uvn.cells = [linkedCell 1 "a.example.com", linkedCell 2 "b.example.com"] := rfl

theorem mem_rekeyedState : rekeyedState.uvn.cells = [linkedCell 1 "a.example.com", linkedCell 2 "b.example.com"] := rfl

end Uno
