import Uno.Vpn.KeyLoad

/-!
# Key material survives persistence

The key material of a centralized and of a peer-to-peer VPN, active and dropped, is saved to the key
tables next to the rows that are there. A fresh object loads the same keys, and none of another prefix,
exactly when no row of the tables matches the patterns it loads with. Patterns match regardless of case,
and `_` and `%` in a prefix match other characters.
-/

namespace Uno

variable {κ σ ν α ι : Type}

/-- The tables `asymm_keys` and `symm_keys`. -/
structure KeyTables (κ σ : Type) where
  asymm : TextTable κ
  symm : TextTable σ

/-- The keys of a centralized VPN: the active ones and the dropped ones. -/
structure CentralizedKeys (κ σ : Type) where
  pfx : Text
  rootKey : Bool → Option κ
  peerKeys : Bool → Dict ℕ κ
  presharedKeys : Bool → PairedValuesMap σ

/-- The keys of a peer-to-peer VPN: the active ones and the dropped ones. -/
structure P2pKeys (κ σ : Type) where
  pfx : Text
  pairKeys : Bool → PairedValuesMap (κ × κ)
  presharedKeys : Bool → PairedValuesMap σ

/-! ### Saving -/

/-- The rows of a material; the keys that are dropped now were saved first. -/
def saveRows (t : TextTable ν) (rows : Bool → List (Text × ν)) : Option (TextTable ν) := do
  let t ← t.addAll (rows true) true
  t.addAll (rows false) false

def pskRows (pfx : Text) (psks : PairedValuesMap σ) : List (Text × σ) :=
  psks.entries.map fun e => (pairKeyId (psksPrefix pfx) e.1, e.2)

def CentralizedKeys.asymmRows (m : CentralizedKeys κ σ) (dropped : Bool) : List (Text × κ) :=
  ((m.rootKey dropped).toList.map fun key => (rootKeyId m.pfx, key)) ++
    (m.peerKeys dropped).entries.map fun e => (peerKeyId m.pfx e.1, e.2)

def CentralizedKeys.save (m : CentralizedKeys κ σ) (t : KeyTables κ σ) : Option (KeyTables κ σ) := do
  let asymm ← saveRows t.asymm m.asymmRows
  let symm ← saveRows t.symm fun dropped => pskRows m.pfx (m.presharedKeys dropped)
  some ⟨asymm, symm⟩

def P2pKeys.asymmRows (m : P2pKeys κ σ) (dropped : Bool) : List (Text × κ) :=
  (m.pairKeys dropped).entries.flatMap fun e =>
    [(endKeyId (pairsPrefix m.pfx) e.1 0, e.2.1), (endKeyId (pairsPrefix m.pfx) e.1 1, e.2.2)]

def P2pKeys.save (m : P2pKeys κ σ) (t : KeyTables κ σ) : Option (KeyTables κ σ) := do
  let asymm ← saveRows t.asymm m.asymmRows
  let symm ← saveRows t.symm fun dropped => pskRows m.pfx (m.presharedKeys dropped)
  some ⟨asymm, symm⟩

/-! ### What a fresh object should load -/

/-- In every mode, a fresh object loads the saved keys. -/
def Restores [DecidableEq ι] (load : Bool → Result (Dict ι α)) (saved : Bool → ι → Option α) : Prop :=
  ∀ mode : LoadMode, ∃ d, mode.load load = .ok d ∧ ∀ i, d.get? i = mode.pick fun b => saved b i

/-- The preshared keys of a prefix are restored, and no key of another prefix is read. -/
structure RestoresPsks (t : TextTable σ) (pfx : Text) (psks : Bool → PairedValuesMap σ) : Prop where
  psks : Restores (loadKeys PresharedKeysMap.loadKey t (psksPrefix pfx)) fun b => (psks b).get?
  psksOnly : MatchesOnly t (keysPattern (psksPrefix pfx)) (pairKeyId (psksPrefix pfx))

structure CentralizedKeys.Restored (m : CentralizedKeys κ σ) (t : KeyTables κ σ) : Prop
    extends RestoresPsks t.symm m.pfx m.presharedKeys where
  root : ∀ mode, loadRootKey t.asymm m.pfx mode = mode.pick m.rootKey
  peers : Restores (loadPeerKeys t.asymm m.pfx) fun b => (m.peerKeys b).get?
  peersOnly : MatchesOnly t.asymm (peersPattern m.pfx) (peerKeyId m.pfx)

/-- The two keys of a pair come back in their order. -/
structure P2pKeys.Restored (m : P2pKeys κ σ) (t : KeyTables κ σ) : Prop
    extends RestoresPsks t.symm m.pfx m.presharedKeys where
  pairs : Restores (loadKeys PairedVpnKeysMap.loadKey t.asymm (pairsPrefix m.pfx)) fun b pair =>
    ((m.pairKeys b).get? pair).map fun keys => [keys.1, keys.2]
  pairsOnly : MatchesOnly t.asymm (keysPattern (pairsPrefix m.pfx))
    fun e : (ℕ × ℕ) × ℕ => endKeyId (pairsPrefix m.pfx) e.1 e.2

/-- The tables hold no row of the material yet. -/
structure CentralizedKeys.Fresh (m : CentralizedKeys κ σ) (t : KeyTables κ σ) : Prop where
  root : ∀ r ∈ t.asymm.rows, r.key ≠ rootKeyId m.pfx
  peers : ∀ r ∈ t.asymm.rows, ∀ peer, r.key ≠ peerKeyId m.pfx peer
  psks : ∀ r ∈ t.symm.rows, ∀ pair, r.key ≠ pairKeyId (psksPrefix m.pfx) pair

structure P2pKeys.Fresh (m : P2pKeys κ σ) (t : KeyTables κ σ) : Prop where
  pairs : ∀ r ∈ t.asymm.rows, ∀ pair i, r.key ≠ endKeyId (pairsPrefix m.pfx) pair i
  psks : ∀ r ∈ t.symm.rows, ∀ pair, r.key ≠ pairKeyId (psksPrefix m.pfx) pair

/-- No row of a table matches a pattern. -/
def Unmatched (t : TextTable ν) (pattern : Text) : Prop := ∀ r ∈ t.rows, ¬ like pattern r.key

/-! ### The rows after saving -/

/-- A table after saving rows: what there was, and the new rows. -/
structure Extends (t t' : TextTable ν) (rows : Bool → List (Text × ν)) : Prop where
  old : ∀ r ∈ t.rows, r ∈ t'.rows
  cases : ∀ r ∈ t'.rows, r ∈ t.rows ∨ (r.key, r.value) ∈ rows r.flag
  new : ∀ b, ∀ e ∈ rows b, ∃ r ∈ t'.rows, r.key = e.1 ∧ r.value = e.2 ∧ r.flag = b

variable {t t' : TextTable ν} {rows : Bool → List (Text × ν)}

theorem exists_saveRows (hnodup : ∀ b, ((rows b).map Prod.fst).Nodup)
    (hfresh : ∀ r ∈ t.rows, ∀ b, r.key ∉ (rows b).map Prod.fst) :
    ∃ t', saveRows t rows = some t' ∧ Extends t t' rows := by
  obtain ⟨t₁, hadd₁, hold₁, hfrom₁, hnew₁⟩ := FlaggedTable.exists_addAll (b := true) (hnodup true)
    fun r hr hkey => absurd hkey (hfresh r hr true)
  obtain ⟨t₂, hadd₂, hold₂, hfrom₂, hnew₂⟩ := FlaggedTable.exists_addAll (t := t₁) (b := false) (hnodup false)
    fun r hr hkey => by
      rcases hfrom₁ r hr with hr | ⟨-, hflag⟩
      · exact absurd hkey (hfresh r hr false)
      · exact ⟨hflag, rfl⟩
  refine ⟨t₂, by rw [saveRows, hadd₁]; exact hadd₂, fun r hr => hold₂ r (hold₁ r hr), fun r hr => ?_, fun b e he => ?_⟩
  · rcases hfrom₂ r hr with hr | ⟨hr, hflag⟩
    · rcases hfrom₁ r hr with hr | ⟨hr, hflag⟩
      · exact .inl hr
      · exact .inr (hflag ▸ hr)
    · exact .inr (hflag ▸ hr)
  · cases b with
    | false => exact hnew₂ e he
    | true =>
      obtain ⟨r, hr, hrow⟩ := hnew₁ e he
      exact ⟨r, hold₂ r hr, hrow⟩

theorem Extends.stored (h : Extends t t' rows) {keyId : ι → Text} {content : Bool → ι → Option ν}
    (hfresh : ∀ r ∈ t.rows, ∀ i, r.key ≠ keyId i) (hrows : ∀ b i v, (keyId i, v) ∈ rows b ↔ content b i = some v) :
    Stored t' keyId content := by
  intro b i v
  rw [← hrows]
  constructor
  · rintro ⟨r, hr, hkey, rfl, rfl⟩
    rcases h.cases r hr with hr | hr
    · exact absurd hkey (hfresh r hr i)
    · exact hkey ▸ hr
  · exact fun hmem => h.new b _ hmem

/-- When the new rows that match a pattern have key ids of a kind, and no old row has, a pattern matches
those key ids only exactly when it matches no old row. -/
theorem Extends.matchesOnly_iff (h : Extends t t' rows) (pattern : Text) {keyId : ι → Text}
    (hfresh : ∀ r ∈ t.rows, ∀ i, r.key ≠ keyId i)
    (hrows : ∀ b, ∀ e ∈ rows b, like pattern e.1 → ∃ i, e.1 = keyId i) :
    MatchesOnly t' pattern keyId ↔ Unmatched t pattern := by
  constructor
  · intro honly r hr hlike
    obtain ⟨i, hi⟩ := honly r (h.old r hr) hlike
    exact hfresh r hr i hi
  · intro hnone r hr hlike
    rcases h.cases r hr with hr | hr
    · exact absurd hlike (hnone r hr)
    · exact hrows r.flag _ hr hlike

/-! ### Preshared keys -/

section psks
variable {pfx : Text} {psks : Bool → PairedValuesMap σ} {t t' : TextTable σ}

theorem mem_pskRows {b : Bool} {pair : ℕ × ℕ} {v : σ} :
    (pairKeyId (psksPrefix pfx) pair, v) ∈ pskRows pfx (psks b) ↔ (psks b).get? pair = some v := by
  rw [Dict.get?_eq_some_iff, pskRows, List.mem_map]
  constructor
  · rintro ⟨e, he, heq⟩
    obtain ⟨hpair, rfl⟩ := Prod.mk.inj heq
    obtain rfl := pairKeyId_injective _ hpair
    exact he
  · exact fun he => ⟨_, he, rfl⟩

theorem nodup_pskRows (b : Bool) : ((pskRows pfx (psks b)).map Prod.fst).Nodup := by
  have hkeys := (psks b).nodup.map (pairKeyId_injective (psksPrefix pfx))
  simpa [pskRows, List.map_map, Function.comp_def] using hkeys

theorem exists_of_mem_pskRows {b : Bool} {e : Text × σ} (h : e ∈ pskRows pfx (psks b)) :
    ∃ pair, e.1 = pairKeyId (psksPrefix pfx) pair := by
  obtain ⟨e', -, rfl⟩ := List.mem_map.mp h
  exact ⟨e'.1, rfl⟩

variable (hfresh : ∀ r ∈ t.rows, ∀ pair, r.key ≠ pairKeyId (psksPrefix pfx) pair)

include hfresh

variable (psks) in
theorem exists_savePsks :
    ∃ t', saveRows t (fun b => pskRows pfx (psks b)) = some t' ∧ Extends t t' fun b => pskRows pfx (psks b) := by
  refine exists_saveRows nodup_pskRows fun r hr b hmem => ?_
  obtain ⟨e, he, hkey⟩ := List.mem_map.mp hmem
  obtain ⟨pair, hpair⟩ := exists_of_mem_pskRows he
  exact hfresh r hr pair (hkey.symm.trans hpair)

theorem restoresPsks_iff (h : Extends t t' fun b => pskRows pfx (psks b)) :
    RestoresPsks t' pfx psks ↔ Unmatched t (keysPattern (psksPrefix pfx)) := by
  have honly := h.matchesOnly_iff (keysPattern (psksPrefix pfx)) hfresh fun b e he _ =>
    exists_of_mem_pskRows he
  refine ⟨fun hrestores => honly.mp hrestores.psksOnly, fun hnone => ⟨fun mode => ?_, honly.mpr hnone⟩⟩
  have hstored : Stored t' (pairKeyId (psksPrefix pfx)) fun b => (psks b).get? :=
    h.stored hfresh fun b pair v => mem_pskRows
  exact LoadMode.exists_load (fun b => exists_loadPsks hstored (honly.mpr hnone) b) mode

end psks

/-! ### Centralized VPNs -/

namespace CentralizedKeys

variable {m : CentralizedKeys κ σ} {t t' : KeyTables κ σ} {a a' : TextTable κ}

theorem rootKeyId_ne_peerKeyId (pfx : Text) (peer : ℕ) : rootKeyId pfx ≠ peerKeyId pfx peer := by
  rw [rootKeyId, peerKeyId, peersPrefix, List.append_assoc]
  intro h
  have := List.append_cancel_left h
  simp at this

theorem not_like_rootKeyId (pfx : Text) : ¬ like (peersPattern pfx) (rootKeyId pfx) := by
  intro hlike
  rw [peersPattern, peersPrefix, List.append_assoc, Like.like_append_iff] at hlike
  obtain ⟨start, rest, htext, hstart, hrest⟩ := hlike
  have hliteral : Like.Literal ":peer:".toList := by decide
  obtain ⟨middle, last, rfl, hmiddle⟩ := (Like.like_literal_iff hliteral).mp hrest
  have hlen : middle.length = 6 := by simpa using congrArg List.length hmiddle
  -- the prefix goes on behind the text it matched, with a colon
  rcases List.append_eq_append_iff.mp htext with ⟨c, hc, hroot⟩ | ⟨c, hc, hroot⟩
  · have := congrArg List.length hroot
    simp only [List.length_append, hlen] at this
    simp at this
    omega
  · cases c with
    | nil =>
      have := congrArg List.length hroot
      simp [hlen] at this
      omega
    | cons d c =>
      cases middle with
      | nil => simp at hlen
      | cons d' middle =>
        obtain rfl : d' = d := (List.cons.inj hroot).1
        have hpeer : ":peer:".toList = [':', 'p', 'e', 'e', 'r', ':'] := by decide
        rw [hpeer] at hmiddle
        have hcolon : ':'.toLower = d'.toLower := (List.cons.inj hmiddle).1.symm
        rw [hc] at hstart
        exact Like.not_like_append (by decide) (by decide) (by decide) hcolon hstart

theorem mem_asymmRows_peer {b : Bool} {peer : ℕ} {v : κ} :
    (peerKeyId m.pfx peer, v) ∈ m.asymmRows b ↔ (m.peerKeys b).get? peer = some v := by
  rw [Dict.get?_eq_some_iff, asymmRows, List.mem_append, List.mem_map, List.mem_map]
  constructor
  · rintro (⟨key, -, heq⟩ | ⟨e, he, heq⟩)
    · exact absurd (Prod.mk.inj heq).1 (rootKeyId_ne_peerKeyId _ _)
    · obtain ⟨hpeer, rfl⟩ := Prod.mk.inj heq
      obtain rfl := peerKeyId_injective _ hpeer
      exact he
  · exact fun he => .inr ⟨_, he, rfl⟩

theorem mem_asymmRows_root {b : Bool} {v : κ} : (rootKeyId m.pfx, v) ∈ m.asymmRows b ↔ m.rootKey b = some v := by
  rw [asymmRows, List.mem_append, List.mem_map, List.mem_map]
  constructor
  · rintro (⟨key, hkey, heq⟩ | ⟨e, -, heq⟩)
    · obtain rfl := (Prod.mk.inj heq).2
      simpa using hkey
    · exact absurd (Prod.mk.inj heq).1.symm (rootKeyId_ne_peerKeyId _ _)
  · exact fun hroot => .inl ⟨v, by simp [hroot], rfl⟩

theorem nodup_asymmRows (b : Bool) : ((m.asymmRows b).map Prod.fst).Nodup := by
  have hpeers := (m.peerKeys b).nodup.map (peerKeyId_injective m.pfx)
  rw [asymmRows, List.map_append, List.map_map, List.map_map]
  refine List.Nodup.append ?_ (by simpa [List.map_map, Function.comp_def] using hpeers) fun key hroot hpeer => ?_
  · cases m.rootKey b with
    | none => exact .nil
    | some key => exact List.nodup_singleton _
  · obtain ⟨_, -, rfl⟩ := List.mem_map.mp hroot
    obtain ⟨e, -, heq⟩ := List.mem_map.mp hpeer
    exact rootKeyId_ne_peerKeyId _ _ heq.symm

theorem cases_of_mem_asymmRows {b : Bool} {e : Text × κ} (h : e ∈ m.asymmRows b) :
    e.1 = rootKeyId m.pfx ∨ ∃ peer, e.1 = peerKeyId m.pfx peer := by
  rcases List.mem_append.mp h with h | h
  · obtain ⟨_, -, rfl⟩ := List.mem_map.mp h
    exact .inl rfl
  · obtain ⟨e', -, rfl⟩ := List.mem_map.mp h
    exact .inr ⟨e'.1, rfl⟩

theorem exists_save (hfresh : m.Fresh t) : ∃ t', m.save t = some t' ∧ Extends t.asymm t'.asymm m.asymmRows ∧
    Extends t.symm t'.symm fun b => pskRows m.pfx (m.presharedKeys b) := by
  obtain ⟨asymm, hasymm, hextends⟩ := exists_saveRows (t := t.asymm) (nodup_asymmRows (m := m)) fun r hr b hmem => by
    obtain ⟨e, he, hkey⟩ := List.mem_map.mp hmem
    rcases cases_of_mem_asymmRows he with hroot | ⟨peer, hpeer⟩
    · exact hfresh.root r hr (hkey.symm.trans hroot)
    · exact hfresh.peers r hr peer (hkey.symm.trans hpeer)
  obtain ⟨symm, hsymm, hextends'⟩ := exists_savePsks m.presharedKeys hfresh.psks
  exact ⟨⟨asymm, symm⟩, by simp [save, hasymm, hsymm], hextends, hextends'⟩

theorem loadRootKey_eq (hstored : Stored a (fun _ : Unit => rootKeyId m.pfx) fun b _ => m.rootKey b)
    (mode : LoadMode) : loadRootKey a m.pfx mode = mode.pick m.rootKey := by
  unfold loadRootKey
  congr 1
  funext b
  ext v
  rw [← hstored b () v, Option.map_eq_some_iff]
  constructor
  · rintro ⟨r, hr, rfl⟩
    have hmem := List.mem_of_mem_head? hr
    rw [List.mem_filter, decide_eq_true_eq] at hmem
    exact ⟨r, hmem.1, hmem.2.1, rfl, hmem.2.2⟩
  · rintro ⟨r, hr, hkey, rfl, hflag⟩
    cases hfilter : a.rows.filter fun r => r.key = rootKeyId m.pfx ∧ r.flag = b with
    | nil =>
      have := List.filter_eq_nil_iff.mp hfilter r hr
      simp [hkey, hflag] at this
    | cons r' rest =>
      have hmem : r' ∈ a.rows.filter fun r => r.key = rootKeyId m.pfx ∧ r.flag = b := hfilter ▸ List.mem_cons_self
      rw [List.mem_filter, decide_eq_true_eq] at hmem
      have heq := a.eq_of_key hmem.1 hr (hmem.2.1.trans hkey.symm) (hmem.2.2.trans hflag.symm)
      exact ⟨r', rfl, by rw [heq]⟩

/-- Saved key material is restored exactly when no other row matches. -/
theorem restored_iff (hfresh : m.Fresh t) (h : m.save t = some t') :
    m.Restored t' ↔ Unmatched t.asymm (peersPattern m.pfx) ∧ Unmatched t.symm (keysPattern (psksPrefix m.pfx)) := by
  obtain ⟨t₁, hsave, hasymm, hsymm⟩ := exists_save hfresh
  obtain rfl : t₁ = t' := Option.some.inj (hsave.symm.trans h)
  have hpsks := restoresPsks_iff hfresh.psks hsymm
  have honly := hasymm.matchesOnly_iff (peersPattern m.pfx) hfresh.peers fun b e he hlike => by
    rcases cases_of_mem_asymmRows he with hroot | hpeer
    · exact absurd (hroot ▸ hlike) (not_like_rootKeyId _)
    · exact hpeer
  constructor
  · exact fun hrestored => ⟨honly.mp hrestored.peersOnly, hpsks.mp hrestored.toRestoresPsks⟩
  · rintro ⟨hpeers, hnone⟩
    have hstored : Stored t₁.asymm (peerKeyId m.pfx) fun b => (m.peerKeys b).get? :=
      hasymm.stored hfresh.peers fun b peer v => mem_asymmRows_peer
    have hroot : Stored t₁.asymm (fun _ : Unit => rootKeyId m.pfx) fun b _ => m.rootKey b :=
      hasymm.stored (fun r hr _ => hfresh.root r hr) fun b _ v => mem_asymmRows_root
    exact { toRestoresPsks := hpsks.mpr hnone
            root := loadRootKey_eq hroot
            peers := LoadMode.exists_load fun b => exists_loadPeerKeys hstored (honly.mpr hpeers) b
            peersOnly := honly.mpr hpeers }

end CentralizedKeys

/-! ### Peer-to-peer VPNs -/

namespace P2pKeys

variable {m : P2pKeys κ σ} {t t' : KeyTables κ σ}

theorem mem_asymmRows {b : Bool} {pair : ℕ × ℕ} {i : ℕ} {v : κ} :
    (endKeyId (pairsPrefix m.pfx) pair i, v) ∈ m.asymmRows b ↔ ends ((m.pairKeys b).get? pair) i = some v := by
  rw [asymmRows, List.mem_flatMap]
  constructor
  · rintro ⟨⟨pair', keys⟩, he, hmem⟩
    rw [List.mem_cons, List.mem_singleton, Prod.mk.injEq, Prod.mk.injEq] at hmem
    rcases hmem with ⟨hkey, rfl⟩ | ⟨hkey, rfl⟩
    · obtain ⟨rfl, rfl⟩ := endKeyId_inj hkey
      rw [Dict.get?_eq_some_iff.mpr he]
      rfl
    · obtain ⟨rfl, rfl⟩ := endKeyId_inj hkey
      rw [Dict.get?_eq_some_iff.mpr he]
      rfl
  · intro hends
    cases hget : (m.pairKeys b).get? pair with
    | none =>
      rw [hget] at hends
      unfold ends at hends
      split at hends <;> cases hends
    | some keys =>
      refine ⟨(pair, keys), Dict.get?_eq_some_iff.mp hget, ?_⟩
      rw [hget] at hends
      match i with
      | 0 => cases hends; exact List.mem_cons_self
      | 1 => cases hends; simp
      | i + 2 => cases hends

theorem exists_of_mem_asymmRows {b : Bool} {e : Text × κ} (h : e ∈ m.asymmRows b) :
    ∃ place : (ℕ × ℕ) × ℕ, e.1 = endKeyId (pairsPrefix m.pfx) place.1 place.2 := by
  obtain ⟨e', -, hmem⟩ := List.mem_flatMap.mp h
  rw [List.mem_cons, List.mem_singleton] at hmem
  rcases hmem with rfl | rfl
  · exact ⟨(e'.1, 0), rfl⟩
  · exact ⟨(e'.1, 1), rfl⟩

theorem nodup_asymmRows (b : Bool) : ((m.asymmRows b).map Prod.fst).Nodup := by
  rw [asymmRows, List.map_flatMap, List.nodup_flatMap]
  refine ⟨fun e _ => ?_, ?_⟩
  · have hne : endKeyId (pairsPrefix m.pfx) e.1 0 ≠ endKeyId (pairsPrefix m.pfx) e.1 1 := fun heq =>
      absurd (endKeyId_inj heq).2 (by decide)
    simpa using hne
  · refine (List.pairwise_map.mp (m.pairKeys b).nodup).imp fun {e e'} hne => ?_
    intro key hkey hkey'
    simp only [List.map_cons, List.map_nil, List.mem_cons, List.not_mem_nil, or_false] at hkey hkey'
    rcases hkey with rfl | rfl
    · rcases hkey' with heq | heq
      · exact hne (endKeyId_inj heq).1
      · exact hne (endKeyId_inj heq).1
    · rcases hkey' with heq | heq
      · exact hne (endKeyId_inj heq).1
      · exact hne (endKeyId_inj heq).1

theorem exists_save (hfresh : m.Fresh t) : ∃ t', m.save t = some t' ∧ Extends t.asymm t'.asymm m.asymmRows ∧
    Extends t.symm t'.symm fun b => pskRows m.pfx (m.presharedKeys b) := by
  obtain ⟨asymm, hasymm, hextends⟩ := exists_saveRows (t := t.asymm) (nodup_asymmRows (m := m)) fun r hr b hmem => by
    obtain ⟨e, he, hkey⟩ := List.mem_map.mp hmem
    obtain ⟨place, hplace⟩ := exists_of_mem_asymmRows he
    exact hfresh.pairs r hr _ _ (hkey.symm.trans hplace)
  obtain ⟨symm, hsymm, hextends'⟩ := exists_savePsks m.presharedKeys hfresh.psks
  exact ⟨⟨asymm, symm⟩, by simp [save, hasymm, hsymm], hextends, hextends'⟩

/-- Saved key material is restored exactly when no other row matches. -/
theorem restored_iff (hfresh : m.Fresh t) (h : m.save t = some t') :
    m.Restored t' ↔
      Unmatched t.asymm (keysPattern (pairsPrefix m.pfx)) ∧ Unmatched t.symm (keysPattern (psksPrefix m.pfx)) := by
  obtain ⟨t₁, hsave, hasymm, hsymm⟩ := exists_save hfresh
  obtain rfl : t₁ = t' := Option.some.inj (hsave.symm.trans h)
  have hpsks := restoresPsks_iff hfresh.psks hsymm
  have hplaces : ∀ r ∈ t.asymm.rows, ∀ e : (ℕ × ℕ) × ℕ, r.key ≠ endKeyId (pairsPrefix m.pfx) e.1 e.2 :=
    fun r hr e => hfresh.pairs r hr e.1 e.2
  have honly := hasymm.matchesOnly_iff (keysPattern (pairsPrefix m.pfx)) hplaces fun b e he _ =>
    exists_of_mem_asymmRows he
  constructor
  · exact fun hrestored => ⟨honly.mp hrestored.pairsOnly, hpsks.mp hrestored.toRestoresPsks⟩
  · rintro ⟨hpairs, hnone⟩
    have hstored : Stored t₁.asymm (fun e : (ℕ × ℕ) × ℕ => endKeyId (pairsPrefix m.pfx) e.1 e.2)
        fun b e => ends ((m.pairKeys b).get? e.1) e.2 :=
      hasymm.stored hplaces fun b e v => mem_asymmRows
    exact { toRestoresPsks := hpsks.mpr hnone
            pairs := LoadMode.exists_load fun b => exists_loadPairKeys hstored (honly.mpr hpairs) b
            pairsOnly := honly.mpr hpairs }

end P2pKeys

end Uno
