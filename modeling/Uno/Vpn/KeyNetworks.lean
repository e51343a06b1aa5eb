import Uno.Vpn.KeyRestore

/-!
# The key ids of a network

The texts of the key ids of a UVN, and which of them the patterns of its VPNs match. When the name of the
UVN has no wildcard, a pattern matches the key ids of its own VPN and no others, also where the id of one
cell is a prefix of the id of another. `key_material_restored_iff` says when key material survives being
saved and loaded.
-/

namespace Uno

/-- `:a:b:c`, for the parts `a`, `b`, `c` of a key id. -/
def path : List Text → Text
  | [] => []
  | part :: parts => ':' :: (part ++ path parts)

/-- The parts of a prefix after the name of the UVN. -/
def Vpn.parts : Vpn → List Text
  | .root => ["vpn".toList, "root".toList]
  | .particles cell => ["vpn".toList, "particles".toList, dec cell]
  | .backbone => ["vpn".toList, "backbone".toList]

/-- `{uvn.name}:vpn:root`, `{uvn.name}:vpn:particles:{cell.id}` or `{uvn.name}:vpn:backbone`. -/
def Vpn.pfx (uvn : Text) (vpn : Vpn) : Text := uvn ++ path vpn.parts

/-- The parts of a key id after the name of the UVN. -/
def AsymmKeyId.parts : AsymmKeyId → List Text
  | .root vpn => vpn.parts ++ ["root".toList]
  | .peer vpn id => vpn.parts ++ ["peer".toList, dec id]
  | .pair vpn ends i => vpn.parts ++ ["pair".toList, dumpsPair ends, dec i]

def AsymmKeyId.text (uvn : Text) (id : AsymmKeyId) : Text := uvn ++ path id.parts

def SymmKeyId.parts (id : SymmKeyId) : List Text := id.vpn.parts ++ ["psks".toList, dumpsPair id.pair]

def SymmKeyId.text (uvn : Text) (id : SymmKeyId) : Text := uvn ++ path id.parts

variable {κ σ : Type} {uvn : Text} {parts parts' : List Text}

@[simp] theorem path_append (a b : List Text) : path (a ++ b) = path a ++ path b := by
  induction a with
  | nil => rfl
  | cons part a ih => rw [List.cons_append, path, path, ih, List.cons_append, List.append_assoc]

/-! ### The texts are those that are saved and loaded -/

theorem text_peer (vpn : Vpn) (id : ℕ) : (AsymmKeyId.peer vpn id).text uvn = peerKeyId (vpn.pfx uvn) id := by
  rw [AsymmKeyId.text, AsymmKeyId.parts, path_append, ← List.append_assoc, peerKeyId, peersPrefix, List.append_assoc]
  simp [Vpn.pfx, path]

theorem text_pair (vpn : Vpn) (pair : ℕ × ℕ) (i : ℕ) :
    (AsymmKeyId.pair vpn pair i).text uvn = endKeyId (pairsPrefix (vpn.pfx uvn)) pair i := by
  rw [AsymmKeyId.text, AsymmKeyId.parts, path_append, ← List.append_assoc, endKeyId, pairKeyId, pairsPrefix]
  simp [Vpn.pfx, path]

theorem text_psk (vpn : Vpn) (pair : ℕ × ℕ) :
    (SymmKeyId.mk vpn pair).text uvn = pairKeyId (psksPrefix (vpn.pfx uvn)) pair := by
  rw [SymmKeyId.text, SymmKeyId.parts, path_append, ← List.append_assoc, pairKeyId, psksPrefix]
  simp [Vpn.pfx, path]

theorem peersPattern_eq (vpn : Vpn) :
    peersPattern (vpn.pfx uvn) = uvn ++ (path (vpn.parts ++ ["peer".toList]) ++ [':', '%']) := by
  simp [peersPattern, peersPrefix, Vpn.pfx, path]

theorem pairsPattern_eq (vpn : Vpn) :
    keysPattern (pairsPrefix (vpn.pfx uvn)) = uvn ++ (path (vpn.parts ++ ["pair".toList]) ++ [':', '%']) := by
  simp [keysPattern, pairsPrefix, Vpn.pfx, path]

theorem psksPattern_eq (vpn : Vpn) :
    keysPattern (psksPrefix (vpn.pfx uvn)) = uvn ++ (path (vpn.parts ++ ["psks".toList]) ++ [':', '%']) := by
  simp [keysPattern, psksPrefix, Vpn.pfx, path]

/-! ### Paths -/

/-- A part of a key id: no colons, no wildcards, and nothing in upper case. -/
def Part (part : Text) : Prop := ∀ c ∈ part, c ≠ ':' ∧ c ≠ '%' ∧ c ≠ '_' ∧ c.toLower = c

theorem append_colon_inj {a b x y : Text} (ha : ∀ c ∈ a, c ≠ ':') (hb : ∀ c ∈ b, c ≠ ':')
    (h : a ++ ':' :: x = b ++ ':' :: y) : a = b ∧ x = y := by
  have hcut := takeWhile_ne_append x ha
  have hcut' := takeWhile_ne_append y hb
  obtain rfl : a = b := by rw [← hcut.1, h, hcut'.1]
  exact ⟨rfl, (List.cons.inj (List.append_cancel_left h)).2⟩

theorem exists_path_append_colon (parts : List Text) : ∃ rest, path parts ++ [':'] = ':' :: rest := by
  cases parts with
  | nil => exact ⟨[], rfl⟩
  | cons part parts => exact ⟨_, rfl⟩

theorem path_prefix_iff (h : ∀ part ∈ parts, Part part) (h' : ∀ part ∈ parts', Part part) :
    path parts ++ [':'] <+: path parts' ↔ ∃ part rest, parts' = parts ++ part :: rest := by
  constructor
  · intro hprefix
    induction parts generalizing parts' with
    | nil =>
      cases parts' with
      | nil => simp [path] at hprefix
      | cons part rest => exact ⟨part, rest, rfl⟩
    | cons part parts ih =>
      obtain ⟨tail, htail⟩ := hprefix
      cases parts' with
      | nil => cases htail
      | cons part' parts' =>
        obtain ⟨rest, hrest⟩ := exists_path_append_colon parts
        have hcolon : ∀ c ∈ part, c ≠ ':' := fun c hc => (h part List.mem_cons_self c hc).1
        have hcolon' : ∀ c ∈ part', c ≠ ':' := fun c hc => (h' part' List.mem_cons_self c hc).1
        have hpath : part ++ ':' :: (rest ++ tail) = part' ++ path parts' := by
          have hbody : part ++ (path parts ++ [':']) ++ tail = part' ++ path parts' := by
            simpa [path] using htail
          rw [hrest] at hbody
          simpa using hbody
        cases parts' with
        | nil =>
          have hmem : ':' ∈ part' := by
            rw [path, List.append_nil] at hpath
            rw [← hpath]
            simp
          exact absurd rfl (hcolon' _ hmem)
        | cons part'' parts' =>
          obtain ⟨rfl, hrest'⟩ := append_colon_inj hcolon hcolon' hpath
          have hprefix' : path parts ++ [':'] <+: path (part'' :: parts') := ⟨tail, by
            rw [hrest, path, ← hrest', List.cons_append]⟩
          obtain ⟨q, qs, hq⟩ := ih (fun p hp => h p (List.mem_cons_of_mem _ hp))
            (fun p hp => h' p (List.mem_cons_of_mem _ hp)) hprefix'
          exact ⟨q, qs, by rw [hq, List.cons_append]⟩
  · rintro ⟨part, rest, rfl⟩
    rw [path_append, path]
    exact ⟨part ++ path rest, by simp⟩

theorem mem_path {c : Char} (h : ∀ part ∈ parts, Part part) (hc : c ∈ path parts) :
    c = ':' ∨ c ≠ '%' ∧ c ≠ '_' ∧ c.toLower = c := by
  induction parts with
  | nil => cases hc
  | cons part parts ih =>
    rw [path, List.mem_cons, List.mem_append] at hc
    rcases hc with hc | hc | hc
    · exact .inl hc
    · exact .inr (h part List.mem_cons_self c hc).2
    · exact ih (fun p hp => h p (List.mem_cons_of_mem _ hp)) hc

theorem map_toLower_eq {text : Text} (h : ∀ c ∈ text, c.toLower = c) : text.map Char.toLower = text := by
  rw [List.map_congr_left h, List.map_id'']
  exact fun _ => rfl

/-- A pattern with the name of the UVN matches a path of the UVN exactly when the path goes on after its own. -/
theorem like_path_iff (huvn : Like.Literal uvn) (h : ∀ part ∈ parts, Part part) (h' : ∀ part ∈ parts', Part part) :
    like (uvn ++ (path parts ++ [':', '%'])) (uvn ++ path parts') ↔ ∃ part rest, parts' = parts ++ part :: rest := by
  rw [← path_prefix_iff h h']
  have hlower : ∀ c ∈ path parts ++ [':'], c.toLower = c := by
    intro c hc
    rcases List.mem_append.mp hc with hc | hc
    · rcases mem_path h hc with rfl | ⟨-, -, hc⟩
      · rfl
      · exact hc
    · rw [List.mem_singleton.mp hc]
      rfl
  have hlower' : ∀ c ∈ path parts', c.toLower = c := by
    intro c hc
    rcases mem_path h' hc with rfl | ⟨-, -, hc⟩
    · rfl
    · exact hc
  have hliteral : Like.Literal (uvn ++ (path parts ++ [':'])) := by
    have hwildcard : ∀ c ∈ path parts ++ [':'], c ≠ '%' ∧ c ≠ '_' := by
      intro c hc
      rcases List.mem_append.mp hc with hc | hc
      · rcases mem_path h hc with rfl | ⟨hpercent, hunder, -⟩
        · exact ⟨by decide, by decide⟩
        · exact ⟨hpercent, hunder⟩
      · rw [List.mem_singleton.mp hc]
        exact ⟨by decide, by decide⟩
    constructor
    · rw [List.mem_append, not_or]
      exact ⟨huvn.1, fun hmem => (hwildcard _ hmem).1 rfl⟩
    · rw [List.mem_append, not_or]
      exact ⟨huvn.2, fun hmem => (hwildcard _ hmem).2 rfl⟩
  have hpattern : uvn ++ (path parts ++ [':', '%']) = (uvn ++ (path parts ++ [':'])) ++ ['%'] := by simp
  rw [hpattern, Like.like_literal_iff hliteral]
  constructor
  · rintro ⟨start, rest, htext, hstart⟩
    have hlen : start.length = uvn.length + (path parts ++ [':']).length := by
      simpa using congrArg List.length hstart
    rcases List.append_eq_append_iff.mp htext with ⟨c, rfl, hpath⟩ | ⟨c, rfl, -⟩
    · rw [List.map_append, List.map_append] at hstart
      have hc := List.append_cancel_left hstart
      rw [map_toLower_eq hlower, map_toLower_eq fun d hd => hlower' d (by rw [hpath]; exact List.mem_append_left _ hd)] at hc
      exact ⟨rest, by rw [hpath, hc]⟩
    · simp at hlen
      omega
  · rintro ⟨rest, hpath⟩
    exact ⟨uvn ++ (path parts ++ [':']), rest, by rw [← hpath]; simp, rfl⟩

/-! ### The parts of the key ids -/

theorem part_of_all {part : Text} (h : part.all fun c => c ≠ ':' ∧ c ≠ '%' ∧ c ≠ '_' ∧ c.toLower = c) : Part part := by
  intro c hc
  simpa using List.all_eq_true.mp h c hc

theorem isDigit_toLower {c : Char} (h : c.isDigit) : c.toLower = c := by
  have hbound : c.val ≤ '9'.val := by simpa [Char.isDigit] using (Bool.and_eq_true_iff.mp h).2
  unfold Char.toLower
  rw [dif_neg]
  rintro ⟨hge, -⟩
  exact absurd (UInt32.le_trans hge hbound) (by decide)

theorem part_dec (n : ℕ) : Part (dec n) := by
  intro c hc
  exact ⟨ne_of_mem_dec hc (by decide), ne_of_mem_dec hc (by decide), ne_of_mem_dec hc (by decide),
    isDigit_toLower (isDigit_of_mem_dec hc)⟩

theorem part_dumpsPair (pair : ℕ × ℕ) : Part (dumpsPair pair) := by
  intro c hc
  simp only [dumpsPair, List.mem_cons, List.mem_append, List.not_mem_nil, or_false] at hc
  rcases hc with rfl | hc | rfl | rfl | hc | rfl
  · decide
  · exact part_dec _ c hc
  · decide
  · decide
  · exact part_dec _ c hc
  · decide

theorem part_vpn (vpn : Vpn) : ∀ part ∈ vpn.parts, Part part := by
  have hvpn : Part "vpn".toList := part_of_all (by decide)
  cases vpn with
  | root => simp only [Vpn.parts, List.forall_mem_cons]; exact ⟨hvpn, part_of_all (by decide), List.forall_mem_nil _⟩
  | particles cell =>
    simp only [Vpn.parts, List.forall_mem_cons]
    exact ⟨hvpn, part_of_all (by decide), part_dec cell, List.forall_mem_nil _⟩
  | backbone => simp only [Vpn.parts, List.forall_mem_cons]; exact ⟨hvpn, part_of_all (by decide), List.forall_mem_nil _⟩

theorem part_vpn_append {parts : List Text} (vpn : Vpn) (h : ∀ part ∈ parts, Part part) :
    ∀ part ∈ vpn.parts ++ parts, Part part := by
  intro part hpart
  rcases List.mem_append.mp hpart with hpart | hpart
  · exact part_vpn vpn part hpart
  · exact h part hpart

theorem part_asymm (id : AsymmKeyId) : ∀ part ∈ id.parts, Part part := by
  cases id with
  | root vpn =>
    refine part_vpn_append vpn ?_
    simp only [List.forall_mem_cons]
    exact ⟨part_of_all (by decide), List.forall_mem_nil _⟩
  | peer vpn id =>
    refine part_vpn_append vpn ?_
    simp only [List.forall_mem_cons]
    exact ⟨part_of_all (by decide), part_dec id, List.forall_mem_nil _⟩
  | pair vpn ends i =>
    refine part_vpn_append vpn ?_
    simp only [List.forall_mem_cons]
    exact ⟨part_of_all (by decide), part_dumpsPair ends, part_dec i, List.forall_mem_nil _⟩

theorem part_symm (id : SymmKeyId) : ∀ part ∈ id.parts, Part part := by
  refine part_vpn_append id.vpn ?_
  simp only [List.forall_mem_cons]
  exact ⟨part_of_all (by decide), part_dumpsPair id.pair, List.forall_mem_nil _⟩

theorem vpn_parts_append_inj {vpn vpn' : Vpn} {a b : List Text} (h : vpn.parts ++ a = vpn'.parts ++ b) :
    vpn = vpn' ∧ a = b := by
  cases vpn with
  | root => cases vpn' <;> simp_all [Vpn.parts]
  | particles cell =>
    cases vpn' with
    | root => simp [Vpn.parts] at h
    | particles cell' =>
      simp only [Vpn.parts, List.cons_append, List.nil_append, List.cons.injEq, true_and] at h
      exact ⟨by rw [dec_injective h.1], h.2⟩
    | backbone => simp [Vpn.parts] at h
  | backbone => cases vpn' <;> simp_all [Vpn.parts]

/-! ### What the patterns of a VPN match -/

section patterns
variable (huvn : Like.Literal uvn) {vpn : Vpn}

include huvn

/-- The pattern of the peers of a VPN matches the key ids of its peers only. -/
theorem like_peersPattern_iff {id : AsymmKeyId} :
    like (peersPattern (vpn.pfx uvn)) (id.text uvn) ↔ ∃ peer, id = .peer vpn peer := by
  have hparts : ∀ part ∈ vpn.parts ++ ["peer".toList], Part part :=
    part_vpn_append vpn (by simpa using part_of_all (by decide))
  rw [peersPattern_eq, AsymmKeyId.text, like_path_iff huvn hparts (part_asymm id)]
  constructor
  · rintro ⟨part, rest, hid⟩
    rw [List.append_assoc] at hid
    cases id with
    | root vpn' => exact absurd (vpn_parts_append_inj hid).2 (by simp)
    | peer vpn' peer => exact ⟨peer, by rw [(vpn_parts_append_inj hid).1]⟩
    | pair vpn' ends i => exact absurd (vpn_parts_append_inj hid).2 (by simp)
  · rintro ⟨peer, rfl⟩
    exact ⟨dec peer, [], by rw [AsymmKeyId.parts, List.append_assoc]; rfl⟩

theorem like_pairsPattern_iff {id : AsymmKeyId} :
    like (keysPattern (pairsPrefix (vpn.pfx uvn))) (id.text uvn) ↔ ∃ ends i, id = .pair vpn ends i := by
  have hparts : ∀ part ∈ vpn.parts ++ ["pair".toList], Part part :=
    part_vpn_append vpn (by simpa using part_of_all (by decide))
  rw [pairsPattern_eq, AsymmKeyId.text, like_path_iff huvn hparts (part_asymm id)]
  constructor
  · rintro ⟨part, rest, hid⟩
    rw [List.append_assoc] at hid
    cases id with
    | root vpn' => exact absurd (vpn_parts_append_inj hid).2 (by simp)
    | peer vpn' peer => exact absurd (vpn_parts_append_inj hid).2 (by simp)
    | pair vpn' ends i => exact ⟨ends, i, by rw [(vpn_parts_append_inj hid).1]⟩
  · rintro ⟨ends, i, rfl⟩
    exact ⟨dumpsPair ends, [dec i], by rw [AsymmKeyId.parts, List.append_assoc]; rfl⟩

theorem like_psksPattern_iff {id : SymmKeyId} :
    like (keysPattern (psksPrefix (vpn.pfx uvn))) (id.text uvn) ↔ id.vpn = vpn := by
  have hparts : ∀ part ∈ vpn.parts ++ ["psks".toList], Part part :=
    part_vpn_append vpn (by simpa using part_of_all (by decide))
  rw [psksPattern_eq, SymmKeyId.text, like_path_iff huvn hparts (part_symm id)]
  constructor
  · rintro ⟨part, rest, hid⟩
    rw [SymmKeyId.parts, List.append_assoc] at hid
    exact (vpn_parts_append_inj hid).1
  · rintro rfl
    exact ⟨dumpsPair id.pair, [], by rw [SymmKeyId.parts, List.append_assoc]; rfl⟩

end patterns

/-- The rows of the key tables belong to a network. -/
structure KeyTables.Of (uvn : Text) (t : KeyTables κ σ) : Prop where
  asymm : ∀ r ∈ t.asymm.rows, ∃ id : AsymmKeyId, r.key = id.text uvn
  symm : ∀ r ∈ t.symm.rows, ∃ id : SymmKeyId, r.key = id.text uvn

section network
variable {t t' : KeyTables κ σ} {vpn : Vpn} (huvn : Like.Literal uvn) (ht : t.Of uvn)

include huvn ht

theorem unmatched_psks (hfresh : ∀ r ∈ t.symm.rows, ∀ pair, r.key ≠ pairKeyId (psksPrefix (vpn.pfx uvn)) pair) :
    Unmatched t.symm (keysPattern (psksPrefix (vpn.pfx uvn))) := by
  intro r hr hlike
  obtain ⟨id, hid⟩ := ht.symm r hr
  rw [hid] at hlike
  obtain rfl := (like_psksPattern_iff huvn).mp hlike
  exact hfresh r hr id.pair (by rw [hid, ← text_psk])

/-- In a network whose name has no wildcard, the key material of a centralized VPN is restored. -/
theorem CentralizedKeys.restored_of_literal {m : CentralizedKeys κ σ} (hm : m.pfx = vpn.pfx uvn)
    (hfresh : m.Fresh t) (hsave : m.save t = some t') : m.Restored t' := by
  refine (restored_iff hfresh hsave).mpr ⟨fun r hr hlike => ?_, ?_⟩
  · obtain ⟨id, hid⟩ := ht.asymm r hr
    rw [hid, hm] at hlike
    obtain ⟨peer, rfl⟩ := (like_peersPattern_iff huvn).mp hlike
    exact hfresh.peers r hr peer (by rw [hid, hm, text_peer])
  · rw [hm]
    exact unmatched_psks huvn ht (hm ▸ hfresh.psks)

/-- In a network whose name has no wildcard, the key material of a peer-to-peer VPN is restored. -/
theorem P2pKeys.restored_of_literal {m : P2pKeys κ σ} (hm : m.pfx = vpn.pfx uvn)
    (hfresh : m.Fresh t) (hsave : m.save t = some t') : m.Restored t' := by
  refine (restored_iff hfresh hsave).mpr ⟨fun r hr hlike => ?_, ?_⟩
  · obtain ⟨id, hid⟩ := ht.asymm r hr
    rw [hid, hm] at hlike
    obtain ⟨ends, i, rfl⟩ := (like_pairsPattern_iff huvn).mp hlike
    exact hfresh.pairs r hr ends i (by rw [hid, hm, text_pair])
  · rw [hm]
    exact unmatched_psks huvn ht (hm ▸ hfresh.psks)

end network

/-! ### The survival of key material -/

/-- Key material that is saved and loaded by a fresh object comes back as it was, with no key of another
prefix, exactly when no other row of its tables matches the patterns of its key ids. Among the rows of one network
whose name has no wildcard, none does. -/
theorem key_material_restored_iff :
    (∀ (m : CentralizedKeys κ σ) (t t' : KeyTables κ σ), m.Fresh t → m.save t = some t' →
      (m.Restored t' ↔
        Unmatched t.asymm (peersPattern m.pfx) ∧ Unmatched t.symm (keysPattern (psksPrefix m.pfx)))) ∧
    (∀ (m : P2pKeys κ σ) (t t' : KeyTables κ σ), m.Fresh t → m.save t = some t' →
      (m.Restored t' ↔ Unmatched t.asymm (keysPattern (pairsPrefix m.pfx)) ∧
        Unmatched t.symm (keysPattern (psksPrefix m.pfx)))) ∧
    ∀ (uvn : Text) (vpn : Vpn) (t t' : KeyTables κ σ), Like.Literal uvn → t.Of uvn →
      (∀ m : CentralizedKeys κ σ, m.pfx = vpn.pfx uvn → m.Fresh t → m.save t = some t' → m.Restored t') ∧
      ∀ m : P2pKeys κ σ, m.pfx = vpn.pfx uvn → m.Fresh t → m.save t = some t' → m.Restored t' :=
  ⟨fun _ _ _ hfresh hsave => CentralizedKeys.restored_iff hfresh hsave,
    fun _ _ _ hfresh hsave => P2pKeys.restored_iff hfresh hsave,
    fun _ _ _ _ huvn ht => ⟨fun _ hm hfresh hsave => CentralizedKeys.restored_of_literal huvn ht hm hfresh hsave,
      fun _ hm hfresh hsave => P2pKeys.restored_of_literal huvn ht hm hfresh hsave⟩⟩

/-- The preshared key of the peer 1 in the root VPN of a network. -/
def exampleTables (name : String) : KeyTables String String where
  asymm := .empty
  symm := { rows := [⟨1, name.toList ++ ":vpn:root:psks:[0, 1]".toList, "psk", false⟩]
            lastId := 1
            ids_nodup := by simp
            ids_le := by simp
            unique := by simp }

/-- The root VPN of a network, with the keys of the root and of one peer. -/
def exampleKeys (name : String) : CentralizedKeys String String where
  pfx := name.toList ++ ":vpn:root".toList
  rootKey dropped := if dropped then none else some "root key"
  peerKeys dropped := if dropped then ∅ else (∅ : Dict ℕ String).set 2 "peer key"
  presharedKeys _ := ∅

/-- The particles VPN of cell 11 has the key and the preshared key of one particle. -/
def labTables : KeyTables String String where
  asymm := { rows := [⟨1, (AsymmKeyId.peer (.particles 11) 1).text "lab".toList, "peer key 11", false⟩]
             lastId := 1
             ids_nodup := by simp
             ids_le := by simp
             unique := by simp }
  symm := { rows := [⟨1, (SymmKeyId.mk (.particles 11) (0, 1)).text "lab".toList, "psk 11", false⟩]
            lastId := 1
            ids_nodup := by simp
            ids_le := by simp
            unique := by simp }

/-- The particles VPN of cell 1. -/
def labKeys : CentralizedKeys String String where
  pfx := (Vpn.particles 1).pfx "lab".toList
  rootKey dropped := if dropped then some "old root key" else some "root key"
  peerKeys dropped := if dropped then ∅ else (∅ : Dict ℕ String).set 1 "peer key"
  presharedKeys dropped := if dropped then ∅ else (∅ : Dict (ℕ × ℕ) String).set (0, 1) "psk"

/-- The keys of cell 1 are restored although cell 11 has keys, and so are those of one network although another one
has keys. -/
theorem key_material_restored_example :
    (∃ t', labKeys.save labTables = some t' ∧ labKeys.Restored t') ∧
      ∃ t', (exampleKeys "a").save (exampleTables "b") = some t' ∧ (exampleKeys "a").Restored t' := by
  have huvn : Like.Literal "lab".toList := by decide
  constructor
  · have hfresh : labKeys.Fresh labTables := by
      refine ⟨fun r hr => ?_, fun r hr peer hkey => ?_, fun r hr pair hkey => ?_⟩
      · rw [List.mem_singleton.mp hr]
        decide
      · have hlike : like (peersPattern labKeys.pfx) (peerKeyId labKeys.pfx peer) := by
          rw [labKeys, ← text_peer]
          exact (like_peersPattern_iff huvn).mpr ⟨peer, rfl⟩
        rw [← hkey, List.mem_singleton.mp hr] at hlike
        obtain ⟨peer', heq⟩ := (like_peersPattern_iff huvn).mp hlike
        cases heq
      · have hlike : like (keysPattern (psksPrefix labKeys.pfx)) (pairKeyId (psksPrefix labKeys.pfx) pair) := by
          rw [labKeys, ← text_psk]
          exact (like_psksPattern_iff huvn).mpr rfl
        rw [← hkey, List.mem_singleton.mp hr] at hlike
        exact absurd ((like_psksPattern_iff huvn).mp hlike) (by decide)
    obtain ⟨t', hsave, -⟩ := CentralizedKeys.exists_save hfresh
    have hof : labTables.Of "lab".toList := by
      refine ⟨fun r hr => ?_, fun r hr => ?_⟩
      · rw [List.mem_singleton.mp hr]
        exact ⟨_, rfl⟩
      · rw [List.mem_singleton.mp hr]
        exact ⟨_, rfl⟩
    exact ⟨t', hsave, (key_material_restored_iff.2.2 _ (.particles 1) _ _ huvn hof).1 _ rfl hfresh hsave⟩
  · have hfresh : (exampleKeys "a").Fresh (exampleTables "b") := by
      refine ⟨nofun, nofun, fun r hr pair hkey => ?_⟩
      rw [List.mem_singleton.mp hr] at hkey
      have hhead : 'b' = 'a' := (List.cons.inj hkey).1
      exact absurd hhead (by decide)
    obtain ⟨t', hsave, -⟩ := CentralizedKeys.exists_save hfresh
    refine ⟨t', hsave, (key_material_restored_iff.1 _ _ _ hfresh hsave).mpr ⟨nofun, fun r hr => ?_⟩⟩
    rw [List.mem_singleton.mp hr]
    decide

/-- The network `a_b` has no preshared keys, and loads the one of the network `a-b`. -/
theorem key_material_confused :
    ∃ (m : CentralizedKeys String String) (t t' : KeyTables String String), m.Fresh t ∧ m.save t = some t' ∧
      (m.presharedKeys false).get? (0, 1) = none ∧
      (∃ d, loadKeys PresharedKeysMap.loadKey t'.symm (psksPrefix m.pfx) false = .ok d ∧
        d.get? (0, 1) = some "psk") ∧ ¬ m.Restored t' := by
  have hfresh : (exampleKeys "a_b").Fresh (exampleTables "a-b") := by
    refine ⟨nofun, nofun, fun r hr pair hkey => ?_⟩
    rw [List.mem_singleton.mp hr] at hkey
    have hhead : '-' = '_' := (List.cons.inj (List.cons.inj hkey).2).1
    exact absurd hhead (by decide)
  obtain ⟨t', hsave, -⟩ := CentralizedKeys.exists_save hfresh
  have hsymm : t'.symm = (exampleTables "a-b").symm := by
    simp only [CentralizedKeys.save, Option.bind_eq_bind, Option.bind_eq_some_iff] at hsave
    obtain ⟨asymm, -, symm, hsymm, hsave⟩ := hsave
    cases hsave
    exact (Option.some.inj hsymm).symm
  have hselect : select (exampleTables "a-b").symm (keysPattern (psksPrefix (exampleKeys "a_b").pfx)) false =
      (exampleTables "a-b").symm.rows := by
    have hfilter : (exampleTables "a-b").symm.rows.filter (fun r =>
        like (keysPattern (psksPrefix (exampleKeys "a_b").pfx)) r.key ∧ r.flag = false) =
          (exampleTables "a-b").symm.rows := by
      decide
    rw [select, hfilter]
    exact List.mergeSort_singleton _
  refine ⟨_, _, t', hfresh, hsave, rfl, ?_, fun hrestored => ?_⟩
  · rw [hsymm, loadKeys, hselect]
    exact ⟨_, rfl, rfl⟩
  · have hnone := ((CentralizedKeys.restored_iff hfresh hsave).mp hrestored).2
    exact absurd (by decide) (hnone _ List.mem_cons_self)

end Uno
