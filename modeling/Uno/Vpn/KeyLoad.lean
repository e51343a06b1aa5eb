import Uno.Vpn.KeyText
import Uno.Lib.FlaggedTable
import Uno.Lib.Fold
import Mathlib.Data.Char
import Mathlib.Data.List.Lex

/-!
# Loading key material

Key material is saved as rows whose key ids start with its prefix, and loaded by matching the key ids with
the pattern `{prefix}…%`. The loaded maps are the saved ones, each key at its place, when no row but its
own matches.
-/

namespace Uno

/-- A key table: the key of a row is its `key_id`, the flag is `dropped`. -/
abbrev TextTable (ν : Type) := FlaggedTable Text ν

variable {κ σ ν α ι : Type}

/-! ### Loading -/

/-- `SELECT * FROM table WHERE key_id LIKE pattern AND dropped = ? ORDER BY key_id`. -/
def select (t : TextTable ν) (pattern : Text) (dropped : Bool) : List (FlaggedRow Text ν) :=
  (t.rows.filter fun r => like pattern r.key ∧ r.flag = dropped).mergeSort fun r r' => r.key ≤ r'.key

/-- Which keys are loaded; `preferDropped` falls back to the active ones. -/
inductive LoadMode where
  | active
  | dropped
  | preferDropped
  deriving DecidableEq

namespace LoadMode

def load [DecidableEq ι] (loadKeys : Bool → Result (Dict ι α)) : LoadMode → Result (Dict ι α)
  | .active => loadKeys false
  | .dropped => loadKeys true
  | .preferDropped => do
    let loaded ← loadKeys true
    let active ← loadKeys false
    .ok (loaded.union active)

/-- One key, from what there is for it with either flag. -/
def pick (key : Bool → Option α) : LoadMode → Option α
  | .active => key false
  | .dropped => key true
  | .preferDropped => (key true).or (key false)

end LoadMode

/-- `PresharedKeysMap.load_key`. -/
def PresharedKeysMap.loadKey (loaded : PairedValuesMap σ) (pair : ℕ × ℕ) (key : σ) (_ : Option Text) :
    Result (PairedValuesMap σ) :=
  .ok (loaded.set pair key)

/-- `list.insert`: past the end it appends. -/
def insertAt (keys : List κ) (i : ℕ) (key : κ) : List κ := keys.take i ++ key :: keys.drop i

/-- `PairedVpnKeysMap.load_key`. -/
def PairedVpnKeysMap.loadKey (loaded : PairedValuesMap (List κ)) (pair : ℕ × ℕ) (key : κ) (keyId : Option Text) :
    Result (PairedValuesMap (List κ)) :=
  match keyId with
  | none => .error (.type "int() argument must be a string, not 'NoneType'")
  | some keyId => do
    let i ← pyInt keyId
    .ok (loaded.set pair (insertAt ((loaded.get? pair).getD []) i key))

/-- The pattern of the key ids of a map. -/
def keysPattern (pfx : Text) : Text := pfx ++ [':', '%']

/-- `VpnKeysMap._load_keys`. -/
def loadKeys (loadKey : PairedValuesMap α → ℕ × ℕ → ν → Option Text → Result (PairedValuesMap α))
    (t : TextTable ν) (pfx : Text) (dropped : Bool) : Result (PairedValuesMap α) :=
  (select t (keysPattern pfx) dropped).foldlM (fun loaded r => do
    let (pairStr, keyId) := splitKeyId pfx r.key
    let pair ← parsePair pairStr
    loadKey loaded pair r.value keyId) ∅

/-- `load_root_key`; no two rows have the same key id and flag. -/
def loadRootKey (t : TextTable κ) (pfx : Text) (mode : LoadMode) : Option κ :=
  mode.pick fun dropped =>
    ((t.rows.filter fun r => r.key = rootKeyId pfx ∧ r.flag = dropped).head?).map FlaggedRow.value

def peersPattern (pfx : Text) : Text := peersPrefix pfx ++ ['%']

/-- `load_peer_keys`. -/
def loadPeerKeys (t : TextTable κ) (pfx : Text) (dropped : Bool) : Result (Dict ℕ κ) :=
  (select t (peersPattern pfx) dropped).foldlM (fun loaded r => do
    let peerId ← pyInt (r.key.drop (peersPrefix pfx).length)
    .ok (loaded.set peerId r.value)) ∅

/-! ### Saved keys -/

/-- The rows of a table with the key ids `keyId i`: for each flag and each `i`, the given key. -/
def Stored (t : TextTable ν) (keyId : ι → Text) (content : Bool → ι → Option ν) : Prop :=
  ∀ b i v, (∃ r ∈ t.rows, r.key = keyId i ∧ r.value = v ∧ r.flag = b) ↔ content b i = some v

/-- A pattern matches no key ids but these. -/
def MatchesOnly (t : TextTable ν) (pattern : Text) (keyId : ι → Text) : Prop :=
  ∀ r ∈ t.rows, like pattern r.key → ∃ i, r.key = keyId i

variable {t : TextTable ν} {pattern : Text} {keyId : ι → Text} {content : Bool → ι → Option ν}

theorem mem_select {b : Bool} {r : FlaggedRow Text ν} :
    r ∈ select t pattern b ↔ r ∈ t.rows ∧ like pattern r.key ∧ r.flag = b := by
  rw [select, List.mem_mergeSort, List.mem_filter, decide_eq_true_eq]

theorem nodup_select (b : Bool) : ((select t pattern b).map FlaggedRow.key).Nodup := by
  refine List.Nodup.map_on (fun r hr r' hr' hkey => ?_) ?_
  · obtain ⟨hr, -, hflag⟩ := mem_select.mp hr
    obtain ⟨hr', -, hflag'⟩ := mem_select.mp hr'
    exact t.eq_of_key hr hr' hkey (hflag.trans hflag'.symm)
  · rw [select, (List.mergeSort_perm _ _).nodup_iff]
    exact (List.Nodup.of_map _ t.ids_nodup).filter _

variable (keyId) in
theorem exists_places (l : List (FlaggedRow Text ν)) (h : ∀ r ∈ l, ∃ i, r.key = keyId i) :
    ∃ places : List (ι × ν), l.map (fun r => (r.key, r.value)) = places.map fun e => (keyId e.1, e.2) := by
  induction l with
  | nil => exact ⟨[], rfl⟩
  | cons r rest ih =>
    obtain ⟨places, hplaces⟩ := ih fun r hr => h r (List.mem_cons_of_mem _ hr)
    obtain ⟨i, hi⟩ := h r List.mem_cons_self
    exact ⟨(i, r.value) :: places, by rw [List.map_cons, List.map_cons, hplaces, hi]⟩

theorem Stored.exists_places (h : Stored t keyId content) (honly : MatchesOnly t pattern keyId)
    (hinj : Function.Injective keyId) (hmatch : ∀ i, like pattern (keyId i)) (b : Bool) :
    ∃ places : List (ι × ν), (select t pattern b).map (fun r => (r.key, r.value)) =
      places.map (fun e => (keyId e.1, e.2)) ∧ (places.map Prod.fst).Nodup ∧
      ∀ i v, (i, v) ∈ places ↔ content b i = some v := by
  obtain ⟨places, hplaces⟩ := Uno.exists_places keyId (select t pattern b) fun r hr => by
    obtain ⟨hr, hlike, -⟩ := mem_select.mp hr
    exact honly r hr hlike
  have hkeys : (select t pattern b).map FlaggedRow.key = (places.map Prod.fst).map keyId := by
    have := congrArg (List.map Prod.fst) hplaces
    simpa [List.map_map, Function.comp_def] using this
  refine ⟨places, hplaces, List.Nodup.of_map keyId (hkeys ▸ nodup_select b), fun i v => ?_⟩
  rw [← h b i v]
  constructor
  · intro hmem
    have hmem' : (keyId i, v) ∈ (select t pattern b).map fun r => (r.key, r.value) :=
      hplaces ▸ List.mem_map_of_mem hmem
    obtain ⟨r, hr, heq⟩ := List.mem_map.mp hmem'
    obtain ⟨hkey, hvalue⟩ := Prod.mk.inj heq
    exact ⟨r, (mem_select.mp hr).1, hkey, hvalue, (mem_select.mp hr).2.2⟩
  · rintro ⟨r, hr, hkey, hvalue, hflag⟩
    have hselect : r ∈ select t pattern b := mem_select.mpr ⟨hr, hkey ▸ hmatch i, hflag⟩
    have hmem : (keyId i, v) ∈ places.map fun e => (keyId e.1, e.2) :=
      hplaces ▸ List.mem_map.mpr ⟨r, hselect, by rw [hkey, hvalue]⟩
    obtain ⟨⟨j, w⟩, hplace, heq⟩ := List.mem_map.mp hmem
    obtain ⟨hij, rfl⟩ := Prod.mk.inj heq
    obtain rfl : j = i := hinj hij
    exact hplace

variable (keyId) in
theorem foldlM_places {β : Type} {l : List (FlaggedRow Text ν)} {places : List (ι × ν)}
    (h : l.map (fun r => (r.key, r.value)) = places.map fun e => (keyId e.1, e.2))
    {f : β → FlaggedRow Text ν → Result β} (g : β → ι × ν → β)
    (hstep : ∀ b r e, r.key = keyId e.1 → r.value = e.2 → f b r = .ok (g b e)) (b : β) :
    l.foldlM f b = .ok (places.foldl g b) := by
  induction l generalizing places b with
  | nil =>
    rw [List.map_nil, eq_comm, List.map_eq_nil_iff] at h
    subst h
    rfl
  | cons r rest ih =>
    cases places with
    | nil => cases h
    | cons e places =>
      obtain ⟨hhead, hrest⟩ := List.cons.inj h
      obtain ⟨hkey, hvalue⟩ := Prod.mk.inj hhead
      rw [List.foldlM_cons, hstep b r e hkey hvalue, Except.ok_bind, ih hrest, List.foldl_cons]

theorem get?_foldl_places [DecidableEq ι] {places : List (ι × ν)} (hnodup : (places.map Prod.fst).Nodup)
    {f : ι → Option ν} (h : ∀ i v, (i, v) ∈ places ↔ f i = some v) (i : ι) :
    (places.foldl (fun d e => d.set e.1 e.2) (∅ : Dict ι ν)).get? i = f i := by
  ext v
  rw [Dict.get?_eq_some_iff, Dict.foldl_set _ _ (by simpa using hnodup)]
  simpa using h i v

/-! ### Loading saved keys -/

section load
variable {pfx : Text}

theorem LoadMode.exists_load [DecidableEq ι] {loadKeys : Bool → Result (Dict ι α)} {saved : Bool → ι → Option α}
    (h : ∀ b, ∃ d, loadKeys b = .ok d ∧ ∀ i, d.get? i = saved b i) (mode : LoadMode) :
    ∃ d, mode.load loadKeys = .ok d ∧ ∀ i, d.get? i = mode.pick fun b => saved b i := by
  obtain ⟨active, hactive, hget⟩ := h false
  obtain ⟨dropped, hdropped, hget'⟩ := h true
  cases mode with
  | active => exact ⟨active, hactive, hget⟩
  | dropped => exact ⟨dropped, hdropped, hget'⟩
  | preferDropped =>
    refine ⟨dropped.union active, ?_, fun i => ?_⟩
    · simp only [LoadMode.load, hactive, hdropped, Except.ok_bind]
    · rw [Dict.get?_union, hget, hget']
      rfl

theorem like_keysPattern (rest : Text) : like (keysPattern pfx) (pfx ++ ':' :: rest) := by
  have := Like.like_append_percent (pfx ++ [':']) rest
  simpa [keysPattern] using this

theorem exists_loadPsks {t : TextTable σ} {psks : Bool → PairedValuesMap σ}
    (h : Stored t (pairKeyId pfx) fun b => (psks b).get?) (honly : MatchesOnly t (keysPattern pfx) (pairKeyId pfx))
    (b : Bool) : ∃ d, loadKeys PresharedKeysMap.loadKey t pfx b = .ok d ∧ ∀ pair, d.get? pair = (psks b).get? pair := by
  obtain ⟨places, hplaces, hnodup, hmem⟩ :=
    h.exists_places honly (pairKeyId_injective pfx) (fun pair => like_keysPattern (dumpsPair pair)) b
  refine ⟨_, foldlM_places _ hplaces (fun d e => Dict.set d e.1 e.2) (fun d r e hkey hvalue => ?_) ∅,
    get?_foldl_places hnodup hmem⟩
  rw [hkey, hvalue, splitKeyId_pairKeyId]
  simp only [parsePair_dumpsPair, Except.ok_bind]
  rfl

theorem exists_loadPeerKeys {t : TextTable κ} {peerKeys : Bool → Dict ℕ κ}
    (h : Stored t (peerKeyId pfx) fun b => (peerKeys b).get?)
    (honly : MatchesOnly t (peersPattern pfx) (peerKeyId pfx)) (b : Bool) :
    ∃ d, loadPeerKeys t pfx b = .ok d ∧ ∀ peer, d.get? peer = (peerKeys b).get? peer := by
  obtain ⟨places, hplaces, hnodup, hmem⟩ :=
    h.exists_places honly (peerKeyId_injective pfx) (fun peer => Like.like_append_percent _ _) b
  refine ⟨_, foldlM_places _ hplaces (fun d e => Dict.set d e.1 e.2) (fun d r e hkey hvalue => ?_) ∅,
    get?_foldl_places hnodup hmem⟩
  rw [hkey, hvalue, peerKeyId, List.drop_left, pyInt_dec]
  rfl

/-- The places of the two keys of a pair. -/
def ends (keys : Option (κ × κ)) (i : ℕ) : Option κ :=
  match i with
  | 0 => keys.map Prod.fst
  | 1 => keys.map Prod.snd
  | _ => none

theorem eq_of_mem_iff_or {β : Type} {l : List β} {x y : β} (hnodup : l.Nodup) (hne : x ≠ y)
    (h : ∀ z, z ∈ l ↔ z = x ∨ z = y) : l = [x, y] ∨ l = [y, x] := by
  have hperm : l.Perm [x, y] := (List.perm_ext_iff_of_nodup hnodup (by simp [hne])).mpr fun z => by rw [h]; simp
  obtain ⟨a, b, rfl⟩ := List.length_eq_two.mp hperm.length_eq
  have hab : a ≠ b := by simpa using hnodup
  rcases (h a).mp (by simp) with rfl | rfl
  · rcases (h b).mp (by simp) with rfl | rfl
    · exact absurd rfl hab
    · exact .inl rfl
  · rcases (h b).mp (by simp) with rfl | rfl
    · exact .inr rfl
    · exact absurd rfl hab

theorem foldl_insertAt {l : List (((ℕ × ℕ) × ℕ) × κ)} (pair : ℕ × ℕ) {keys : Option (κ × κ)} (hnodup : l.Nodup)
    (h : ∀ e, e ∈ l ↔ e.1.1 = pair ∧ ends keys e.1.2 = some e.2) :
    l.foldl (fun o e => some (insertAt (o.getD []) e.1.2 e.2)) none = keys.map fun keys => [keys.1, keys.2] := by
  cases keys with
  | none =>
    obtain rfl : l = [] := by
      refine List.eq_nil_iff_forall_not_mem.mpr fun e he => ?_
      have := ((h e).mp he).2
      unfold ends at this
      split at this <;> cases this
    rfl
  | some keys =>
    have hends : ∀ e, e ∈ l ↔ e = ((pair, 0), keys.1) ∨ e = ((pair, 1), keys.2) := by
      rintro ⟨⟨p, i⟩, k⟩
      rw [h]
      match i with
      | 0 => simp [ends, eq_comm]
      | 1 => simp [ends, eq_comm]
      | i + 2 => simp [ends]
    rcases eq_of_mem_iff_or hnodup (by simp) hends with rfl | rfl
    · rfl
    · rfl

/-- The two keys of each pair are loaded in their order. -/
theorem exists_loadPairKeys {t : TextTable κ} {pairKeys : Bool → PairedValuesMap (κ × κ)}
    (h : Stored t (fun e : (ℕ × ℕ) × ℕ => endKeyId pfx e.1 e.2) fun b e => ends ((pairKeys b).get? e.1) e.2)
    (honly : MatchesOnly t (keysPattern pfx) fun e : (ℕ × ℕ) × ℕ => endKeyId pfx e.1 e.2) (b : Bool) :
    ∃ d, loadKeys PairedVpnKeysMap.loadKey t pfx b = .ok d ∧
      ∀ pair, d.get? pair = ((pairKeys b).get? pair).map fun keys => [keys.1, keys.2] := by
  obtain ⟨places, hplaces, hnodup, hmem⟩ := h.exists_places honly
    (fun e e' he => Prod.ext_iff.mpr (endKeyId_inj he))
    (fun e => by rw [endKeyId, pairKeyId, List.append_assoc, List.cons_append]; exact like_keysPattern _) b
  refine ⟨_, foldlM_places (fun e : (ℕ × ℕ) × ℕ => endKeyId pfx e.1 e.2) hplaces
    (fun d e => Dict.set d e.1.1 (insertAt ((d.get? e.1.1).getD []) e.1.2 e.2)) (fun d r e hkey hvalue => ?_) ∅,
    fun pair => ?_⟩
  · rw [hkey, hvalue, splitKeyId_endKeyId]
    simp only [parsePair_dumpsPair, Except.ok_bind, PairedVpnKeysMap.loadKey, pyInt_dec]
  · have hupdate := Dict.get?_foldl_update
      (fun (o : Option (List κ)) (e : ((ℕ × ℕ) × ℕ) × κ) => insertAt (o.getD []) e.1.2 e.2) (fun e => e.1.1)
      places ∅ pair
    refine hupdate.trans (foldl_insertAt pair ((List.Nodup.of_map _ hnodup).filter _) fun e => ?_)
    rw [List.mem_filter, decide_eq_true_eq, and_comm, and_congr_right_iff]
    rintro rfl
    exact hmem e.1 e.2

end load

end Uno
