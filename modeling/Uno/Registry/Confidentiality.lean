import Uno.Registry.Export
import Mathlib.Data.Nat.Pairing

/-!
# Confidentiality of cell packages

The secrets in the package of a cell are its own: its private keys (`OwnKey`) and the preshared keys of its
connections (`OwnPsk`). Registries that differ in other secrets only export the same rows
(`AgreeFor.generateCellDatabase`), and the rows with secrets are exactly those (`mem_asymmKeys_iff`,
`mem_symmKeys_iff`).
-/

namespace Uno

namespace UvnKeys

/-! ### The secrets of a cell -/

/-- The key pairs of a cell: of the root VPN, of its ends of backbone links, and of the root of its particles VPN. -/
def OwnKey (k : UvnKeys) (cell : ℕ) (enableParticlesVpn : Bool) (i : AsymmKeyId) : Prop :=
  i = .peer .root cell ∨ (∃ pair ∈ k.pairsOf cell, i = ownHalf cell pair) ∨
    enableParticlesVpn = true ∧ i = .root (.particles cell)

/-- The preshared keys of the connections that a cell is an end of. -/
def OwnPsk (k : UvnKeys) (cell : ℕ) (enableParticlesVpn : Bool) (i : SymmKeyId) : Prop :=
  i = ⟨.root, (0, cell)⟩ ∨ (∃ pair ∈ k.backbone.presharedKeys.keys, HasEnd pair cell ∧ i = ⟨.backbone, pair⟩) ∨
    enableParticlesVpn = true ∧ ∃ p ∈ (k.particles cell).peerIds, i = ⟨.particles cell, (0, p)⟩

/-- The key pairs whose public halves a cell needs. -/
def PeerKey (k : UvnKeys) (cell : ℕ) (enableParticlesVpn : Bool) (i : AsymmKeyId) : Prop :=
  i = .root .root ∨ (∃ pair ∈ k.pairsOf cell, i = otherHalf cell pair) ∨
    enableParticlesVpn = true ∧ ∃ p ∈ (k.particles cell).peerIds, i = .peer (.particles cell) p

/-- Two registries that differ only in private keys and preshared keys that do not belong to a cell. -/
structure AgreeFor (cell : ℕ) (enableParticlesVpn : Bool) (k k' : UvnKeys) : Prop where
  asymmId : k.asymmId = k'.asymmId
  symmId : k.symmId = k'.symmId
  pairs : k.backbone.pairKeys.keys = k'.backbone.pairKeys.keys
  psks : k.backbone.presharedKeys.keys = k'.backbone.presharedKeys.keys
  peerIds : (k.particles cell).peerIds = (k'.particles cell).peerIds
  /-- Apart from their secrets, all keys are the same. -/
  asymm : ∀ i, (k.asymmAt i).map (AsymmKey.serialize true) = (k'.asymmAt i).map (AsymmKey.serialize true)
  symm : ∀ i, (k.symmAt i).map (SymmKey.serialize true) = (k'.symmAt i).map (SymmKey.serialize true)
  ownKeys : ∀ i, k.OwnKey cell enableParticlesVpn i → k.asymmAt i = k'.asymmAt i
  ownPsks : ∀ i, k.OwnPsk cell enableParticlesVpn i → k.symmAt i = k'.symmAt i

variable {k k' : UvnKeys} {cell : ℕ} {enableParticlesVpn : Bool}

theorem mem_privatePlaces_asymm {i : AsymmKeyId} :
    i ∈ (k.privatePlaces cell enableParticlesVpn).filterMap Place.asymm? ↔ k.OwnKey cell enableParticlesVpn i := by
  have hmem : i ∈ (k.privatePlaces cell enableParticlesVpn).filterMap Place.asymm? ↔
      Place.asymm i ∈ k.privatePlaces cell enableParticlesVpn := by
    rw [List.mem_filterMap]
    constructor
    · rintro ⟨place, hplace, hi⟩
      cases place with
      | asymm j => rwa [← Option.some.inj hi]
      | symm j => cases hi
    · exact fun hi => ⟨_, hi, rfl⟩
  rw [hmem, privatePlaces, OwnKey]
  cases enableParticlesVpn with
  | true => simp [eq_comm]
  | false => simp [eq_comm]

theorem mem_privatePlaces_symm {i : SymmKeyId} :
    i ∈ (k.privatePlaces cell enableParticlesVpn).filterMap Place.symm? ↔ k.OwnPsk cell enableParticlesVpn i := by
  have hmem : i ∈ (k.privatePlaces cell enableParticlesVpn).filterMap Place.symm? ↔
      Place.symm i ∈ k.privatePlaces cell enableParticlesVpn := by
    rw [List.mem_filterMap]
    constructor
    · rintro ⟨place, hplace, hi⟩
      cases place with
      | asymm j => cases hi
      | symm j => rwa [← Option.some.inj hi]
    · exact fun hi => ⟨_, hi, rfl⟩
  rw [hmem, privatePlaces, OwnPsk]
  cases enableParticlesVpn with
  | true => simp [eq_comm, and_assoc]
  | false => simp [eq_comm, and_assoc]

theorem mem_publicPlaces {i : AsymmKeyId} :
    i ∈ k.publicPlaces cell enableParticlesVpn ↔ k.PeerKey cell enableParticlesVpn i := by
  rw [publicPlaces, PeerKey]
  cases enableParticlesVpn with
  | true => simp [eq_comm]
  | false => simp [eq_comm]

/-! ### The exported rows depend on no other secret -/

theorem AgreeFor.privatePlaces (h : AgreeFor cell enableParticlesVpn k k') :
    k.privatePlaces cell enableParticlesVpn = k'.privatePlaces cell enableParticlesVpn := by
  rw [UvnKeys.privatePlaces, UvnKeys.privatePlaces, pairsOf, pairsOf, h.pairs, h.psks, h.peerIds]

theorem AgreeFor.publicPlaces (h : AgreeFor cell enableParticlesVpn k k') :
    k.publicPlaces cell enableParticlesVpn = k'.publicPlaces cell enableParticlesVpn := by
  rw [UvnKeys.publicPlaces, UvnKeys.publicPlaces, pairsOf, pairsOf, h.pairs, h.peerIds]

theorem AgreeFor.asymmAt_eq_none_iff (h : AgreeFor cell enableParticlesVpn k k') (i : AsymmKeyId) :
    k.asymmAt i = none ↔ k'.asymmAt i = none := by
  have heq := h.asymm i
  rw [← Option.map_eq_none_iff (f := AsymmKey.serialize true), heq, Option.map_eq_none_iff]

theorem AgreeFor.symmAt_eq_none_iff (h : AgreeFor cell enableParticlesVpn k k') (i : SymmKeyId) :
    k.symmAt i = none ↔ k'.symmAt i = none := by
  have heq := h.symm i
  rw [← Option.map_eq_none_iff (f := SymmKey.serialize true), heq, Option.map_eq_none_iff]

theorem AgreeFor.hasKeysOf_iff (h : AgreeFor cell enableParticlesVpn k k') :
    k.HasKeysOf cell enableParticlesVpn ↔ k'.HasKeysOf cell enableParticlesVpn := by
  rw [HasKeysOf, HasKeysOf, h.privatePlaces, h.publicPlaces]
  refine and_congr (forall₂_congr fun place _ => not_congr ?_) (forall₂_congr fun i _ => not_congr (h.asymmAt_eq_none_iff i))
  cases place with
  | asymm i =>
    rw [materialAt, materialAt, Option.map_eq_none_iff, Option.map_eq_none_iff]
    exact h.asymmAt_eq_none_iff i
  | symm i =>
    rw [materialAt, materialAt, Option.map_eq_none_iff, Option.map_eq_none_iff]
    exact h.symmAt_eq_none_iff i

theorem AgreeFor.packageRows (h : AgreeFor cell enableParticlesVpn k k') :
    k.packageRows cell enableParticlesVpn = k'.packageRows cell enableParticlesVpn := by
  have hown : ((k.privatePlaces cell enableParticlesVpn).filterMap Place.asymm?).filterMap k.asymmRowAt =
      ((k'.privatePlaces cell enableParticlesVpn).filterMap Place.asymm?).filterMap k'.asymmRowAt := by
    rw [← h.privatePlaces]
    apply List.filterMap_congr
    intro i hi
    rw [asymmRowAt, asymmRowAt, h.ownKeys i (mem_privatePlaces_asymm.mp hi), h.asymmId]
  have hpsks : ((k.privatePlaces cell enableParticlesVpn).filterMap Place.symm?).filterMap k.symmRowAt =
      ((k'.privatePlaces cell enableParticlesVpn).filterMap Place.symm?).filterMap k'.symmRowAt := by
    rw [← h.privatePlaces]
    apply List.filterMap_congr
    intro i hi
    rw [symmRowAt, symmRowAt, h.ownPsks i (mem_privatePlaces_symm.mp hi), h.symmId]
  have hpeers : ((k.publicPlaces cell enableParticlesVpn).filterMap k.asymmRowAt).map (KeyRow.map (AsymmKey.serialize true)) =
      ((k'.publicPlaces cell enableParticlesVpn).filterMap k'.asymmRowAt).map (KeyRow.map (AsymmKey.serialize true)) := by
    rw [List.map_filterMap, List.map_filterMap, ← h.publicPlaces]
    apply List.filterMap_congr
    intro i _
    have heq := congrArg (Option.map (KeyRow.mk (k.asymmId i))) (h.asymm i)
    rw [Option.map_map, Option.map_map] at heq
    rw [asymmRowAt, asymmRowAt, Option.map_map, Option.map_map, ← h.asymmId]
    exact heq
  rw [UvnKeys.packageRows, UvnKeys.packageRows, hown, hpsks, hpeers]

/-- Registries that agree for a cell export the same keys to it. -/
theorem AgreeFor.generateCellDatabase (h : AgreeFor cell enableParticlesVpn k k') (hk : k.Valid) (hk' : k'.Valid)
    (hcell : 0 < cell) :
    k.generateCellDatabase cell enableParticlesVpn = k'.generateCellDatabase cell enableParticlesVpn := by
  rw [hk.generateCellDatabase_eq hcell, hk'.generateCellDatabase_eq hcell, h.packageRows]
  exact if_congr h.hasKeysOf_iff rfl rfl

/-! ### The exported rows are those of the cell -/

theorem mem_asymmKeys_iff {r : KeyRow AsymmKey} :
    r ∈ (k.packageRows cell enableParticlesVpn).asymmKeys ↔ ∃ i key, k.asymmAt i = some key ∧
      (k.OwnKey cell enableParticlesVpn i ∧ r = ⟨k.asymmId i, key⟩ ∨
        k.PeerKey cell enableParticlesVpn i ∧ r = ⟨k.asymmId i, key.serialize true⟩) := by
  rw [UvnKeys.packageRows, List.mem_append, List.mem_filterMap, List.mem_map]
  constructor
  · rintro (⟨i, hi, hrow⟩ | ⟨row, hrow, rfl⟩)
    · obtain ⟨key, hkey, rfl⟩ := asymmRowAt_eq_some_iff.mp hrow
      exact ⟨i, key, hkey, .inl ⟨mem_privatePlaces_asymm.mp hi, rfl⟩⟩
    · obtain ⟨i, hi, hrow⟩ := List.mem_filterMap.mp hrow
      obtain ⟨key, hkey, rfl⟩ := asymmRowAt_eq_some_iff.mp hrow
      exact ⟨i, key, hkey, .inr ⟨mem_publicPlaces.mp hi, rfl⟩⟩
  · rintro ⟨i, key, hkey, ⟨hown, rfl⟩ | ⟨hpeer, rfl⟩⟩
    · exact .inl ⟨i, mem_privatePlaces_asymm.mpr hown, asymmRowAt_eq_some_iff.mpr ⟨key, hkey, rfl⟩⟩
    · have hrow : (⟨k.asymmId i, key⟩ : KeyRow AsymmKey) ∈
          (k.publicPlaces cell enableParticlesVpn).filterMap k.asymmRowAt :=
        List.mem_filterMap.mpr ⟨i, mem_publicPlaces.mpr hpeer, asymmRowAt_eq_some_iff.mpr ⟨key, hkey, rfl⟩⟩
      exact .inr ⟨_, hrow, rfl⟩

theorem mem_symmKeys_iff {r : KeyRow SymmKey} :
    r ∈ (k.packageRows cell enableParticlesVpn).symmKeys ↔
      ∃ i key, k.symmAt i = some key ∧ k.OwnPsk cell enableParticlesVpn i ∧ r = ⟨k.symmId i, key⟩ := by
  rw [UvnKeys.packageRows, List.mem_filterMap]
  constructor
  · rintro ⟨i, hi, hrow⟩
    obtain ⟨key, hkey, rfl⟩ := symmRowAt_eq_some_iff.mp hrow
    exact ⟨i, key, hkey, mem_privatePlaces_symm.mp hi, rfl⟩
  · rintro ⟨i, key, hkey, hown, rfl⟩
    exact ⟨i, mem_privatePlaces_symm.mpr hown, symmRowAt_eq_some_iff.mpr ⟨key, hkey, rfl⟩⟩

theorem HasKeysOf.asymmAt (h : k.HasKeysOf cell enableParticlesVpn) {i : AsymmKeyId}
    (hi : k.OwnKey cell enableParticlesVpn i ∨ k.PeerKey cell enableParticlesVpn i) : ∃ key, k.asymmAt i = some key := by
  rw [← Option.ne_none_iff_exists']
  rcases hi with hown | hpeer
  · obtain ⟨place, hplace, heq⟩ := List.mem_filterMap.mp (mem_privatePlaces_asymm.mpr hown)
    cases place with
    | asymm j =>
      obtain rfl := Option.some.inj heq
      exact fun hnone => h.1 _ hplace (Option.map_eq_none_iff.mpr hnone)
    | symm j => cases heq
  · exact h.2 i (mem_publicPlaces.mpr hpeer)

theorem HasKeysOf.symmAt (h : k.HasKeysOf cell enableParticlesVpn) {i : SymmKeyId}
    (hi : k.OwnPsk cell enableParticlesVpn i) : ∃ key, k.symmAt i = some key := by
  rw [← Option.ne_none_iff_exists']
  obtain ⟨place, hplace, heq⟩ := List.mem_filterMap.mp (mem_privatePlaces_symm.mpr hi)
  cases place with
  | asymm j => cases heq
  | symm j =>
    obtain rfl := Option.some.inj heq
    exact fun hnone => h.1 _ hplace (Option.map_eq_none_iff.mpr hnone)

theorem Valid.of_generateCellDatabase (h : k.Valid) (hcell : 0 < cell) {db : PackageKeys}
    (hdb : k.generateCellDatabase cell enableParticlesVpn = .ok db) :
    k.HasKeysOf cell enableParticlesVpn ∧ db = k.packageRows cell enableParticlesVpn := by
  rw [h.generateCellDatabase_eq hcell] at hdb
  split_ifs at hdb with hkeys
  exact ⟨hkeys, (Except.ok.inj hdb).symm⟩

/-- The package of a cell depends on no secret of others: its key rows have private halves exactly for the cell's own
keys, and preshared keys exactly for its connections. -/
theorem cell_package_confidential (hk : k.Valid) (hcell : 0 < cell) :
    (∀ k', k'.Valid → AgreeFor cell enableParticlesVpn k k' →
      k.generateCellDatabase cell enableParticlesVpn = k'.generateCellDatabase cell enableParticlesVpn) ∧
    ∀ db, k.generateCellDatabase cell enableParticlesVpn = .ok db →
      (∀ i, (∃ r ∈ db.asymmKeys, r.key.keyId = i ∧ r.key.privateKey ≠ none) ↔ k.OwnKey cell enableParticlesVpn i) ∧
      ∀ i, (∃ r ∈ db.symmKeys, r.key.keyId = i ∧ r.key.value ≠ none) ↔ k.OwnPsk cell enableParticlesVpn i := by
  refine ⟨fun k' hk' hagree => hagree.generateCellDatabase hk hk' hcell, fun db hdb => ?_⟩
  obtain ⟨hkeys, rfl⟩ := hk.of_generateCellDatabase hcell hdb
  refine ⟨fun i => ?_, fun i => ?_⟩
  · constructor
    · rintro ⟨r, hr, hid, hprivate⟩
      obtain ⟨j, key, hkey, ⟨hown, rfl⟩ | ⟨-, rfl⟩⟩ := mem_asymmKeys_iff.mp hr
      · obtain rfl : j = i := (hk.asymm j key hkey).1.symm.trans hid
        exact hown
      · exact absurd rfl hprivate
    · intro hown
      obtain ⟨key, hkey⟩ := hkeys.asymmAt (.inl hown)
      obtain ⟨hid, -, hprivate⟩ := hk.asymm i key hkey
      exact ⟨_, mem_asymmKeys_iff.mpr ⟨i, key, hkey, .inl ⟨hown, rfl⟩⟩, hid, hprivate⟩
  · constructor
    · rintro ⟨r, hr, hid, -⟩
      obtain ⟨j, key, hkey, hown, rfl⟩ := mem_symmKeys_iff.mp hr
      obtain rfl : j = i := (hk.symm j key hkey).1.symm.trans hid
      exact hown
    · intro hown
      obtain ⟨key, hkey⟩ := hkeys.symmAt hown
      obtain ⟨hid, -, hvalue⟩ := hk.symm i key hkey
      exact ⟨_, mem_symmKeys_iff.mpr ⟨i, key, hkey, hown, rfl⟩, hid, hvalue⟩

/-! ### An example -/

def vpnNumber : Vpn → ℕ
  | .root => 0
  | .backbone => 1
  | .particles c => c + 2

/-- A number for each key id. -/
def asymmNumber : AsymmKeyId → ℕ
  | .root vpn => 3 * vpnNumber vpn
  | .peer vpn p => 3 * Nat.pair (vpnNumber vpn) p + 1
  | .pair vpn pair i => 3 * Nat.pair (vpnNumber vpn) (Nat.pair (Nat.pair pair.1 pair.2) i) + 2

def symmNumber (i : SymmKeyId) : ℕ := Nat.pair (vpnNumber i.vpn) (Nat.pair i.pair.1 i.pair.2)

theorem vpnNumber_injective : Function.Injective vpnNumber := by
  intro v w h
  cases v with
  | root =>
    cases w with
    | root => rfl
    | backbone => cases h
    | particles c => cases h
  | backbone =>
    cases w with
    | root => cases h
    | backbone => rfl
    | particles c => cases h
  | particles c =>
    cases w with
    | root => cases h
    | backbone => cases h
    | particles d => rw [Nat.add_right_cancel h]

theorem asymmNumber_injective : Function.Injective asymmNumber := by
  intro i j h
  cases i with
  | root v =>
    cases j with
    | root w =>
      rw [vpnNumber_injective (Nat.eq_of_mul_eq_mul_left (by decide) h)]
    | peer w q => simp only [asymmNumber] at h; omega
    | pair w pair n => simp only [asymmNumber] at h; omega
  | peer v p =>
    cases j with
    | root w => simp only [asymmNumber] at h; omega
    | peer w q =>
      have hpair : Nat.pair (vpnNumber v) p = Nat.pair (vpnNumber w) q := by
        simp only [asymmNumber] at h
        omega
      obtain ⟨hv, rfl⟩ := Nat.pair_eq_pair.mp hpair
      rw [vpnNumber_injective hv]
    | pair w pair n => simp only [asymmNumber] at h; omega
  | pair v pair n =>
    cases j with
    | root w => simp only [asymmNumber] at h; omega
    | peer w q => simp only [asymmNumber] at h; omega
    | pair w pair' n' =>
      have heq : Nat.pair (vpnNumber v) (Nat.pair (Nat.pair pair.1 pair.2) n) =
          Nat.pair (vpnNumber w) (Nat.pair (Nat.pair pair'.1 pair'.2) n') := by
        simp only [asymmNumber] at h
        omega
      simp only [Nat.pair_eq_pair] at heq
      obtain ⟨hv, ⟨hfst, hsnd⟩, rfl⟩ := heq
      rw [vpnNumber_injective hv, Prod.ext hfst hsnd]

theorem symmNumber_injective : Function.Injective symmNumber := by
  rintro ⟨v, pair⟩ ⟨w, pair'⟩ h
  simp only [symmNumber, Nat.pair_eq_pair] at h
  obtain ⟨hv, hfst, hsnd⟩ := h
  rw [vpnNumber_injective hv, Prod.ext hfst hsnd]

/-- The keys of two cells with a link; `secret` is the private key of the second one. -/
def exampleKeys (secret : String) : UvnKeys where
  root := {
    vpn := .root
    peerIds := [1, 2]
    rootKey := some ⟨.root .root, "A", some "a", false⟩
    peerKeys := ⟨[(1, ⟨.peer .root 1, "B", some "b", false⟩), (2, ⟨.peer .root 2, "C", some secret, false⟩)],
      by simp⟩
    presharedKeys := ⟨[((0, 1), ⟨⟨.root, (0, 1)⟩, some "p", false⟩), ((0, 2), ⟨⟨.root, (0, 2)⟩, some "q", false⟩)],
      by decide⟩ }
  particles c := ⟨.particles c, [], none, ∅, ∅⟩
  backbone := {
    pairKeys := ⟨[((1, 2), (⟨.pair .backbone (1, 2) 0, "D", some "d", false⟩,
      ⟨.pair .backbone (1, 2) 1, "E", some "e", false⟩))], by decide⟩
    presharedKeys := ⟨[((1, 2), ⟨⟨.backbone, (1, 2)⟩, some "r", false⟩)], by decide⟩ }
  asymmId := asymmNumber
  symmId := symmNumber

/-- All key pairs of the example. -/
def exampleAsymm (secret : String) : List AsymmKey :=
  [⟨.root .root, "A", some "a", false⟩, ⟨.peer .root 1, "B", some "b", false⟩, ⟨.peer .root 2, "C", some secret, false⟩,
    ⟨.pair .backbone (1, 2) 0, "D", some "d", false⟩, ⟨.pair .backbone (1, 2) 1, "E", some "e", false⟩]

/-- All preshared keys of the example. -/
def exampleSymm : List SymmKey :=
  [⟨⟨.root, (0, 1)⟩, some "p", false⟩, ⟨⟨.root, (0, 2)⟩, some "q", false⟩, ⟨⟨.backbone, (1, 2)⟩, some "r", false⟩]

theorem mem_exampleAsymm {secret : String} {i : AsymmKeyId} {key : AsymmKey}
    (h : (exampleKeys secret).asymmAt i = some key) : key ∈ exampleAsymm secret ∧ key.keyId = i := by
  cases i with
  | root v =>
    cases v with
    | root =>
      obtain rfl := Option.some.inj h
      simp [exampleAsymm]
    | particles c => cases h
    | backbone => cases h
  | peer v p =>
    cases v with
    | root =>
      have hmem := Dict.get?_eq_some_iff.mp (show (exampleKeys secret).root.peerKeys.get? p = some key from h)
      simp only [exampleKeys, List.mem_cons, Prod.mk.injEq, List.not_mem_nil, or_false] at hmem
      rcases hmem with ⟨rfl, rfl⟩ | ⟨rfl, rfl⟩
      · simp [exampleAsymm]
      · simp [exampleAsymm]
    | particles c => cases h
    | backbone => cases h
  | pair v pair n =>
    cases v with
    | root => cases h
    | particles c => cases h
    | backbone =>
      rcases n with _ | _ | n
      · obtain ⟨keys, hkeys, rfl⟩ := Option.map_eq_some_iff.mp h
        obtain ⟨rfl, rfl⟩ := Prod.mk.inj (List.mem_singleton.mp (Dict.get?_eq_some_iff.mp hkeys))
        simp [exampleAsymm]
      · obtain ⟨keys, hkeys, rfl⟩ := Option.map_eq_some_iff.mp h
        obtain ⟨rfl, rfl⟩ := Prod.mk.inj (List.mem_singleton.mp (Dict.get?_eq_some_iff.mp hkeys))
        simp [exampleAsymm]
      · cases h

theorem mem_exampleSymm {secret : String} {i : SymmKeyId} {key : SymmKey}
    (h : (exampleKeys secret).symmAt i = some key) : key ∈ exampleSymm ∧ key.keyId = i := by
  obtain ⟨v, pair⟩ := i
  cases v with
  | root =>
    have hmem := Dict.get?_eq_some_iff.mp (show (exampleKeys secret).root.presharedKeys.get? pair = some key from h)
    simp only [exampleKeys, List.mem_cons, Prod.mk.injEq, List.not_mem_nil, or_false] at hmem
    rcases hmem with ⟨rfl, rfl⟩ | ⟨rfl, rfl⟩
    · simp [exampleSymm]
    · simp [exampleSymm]
  | particles c => cases h
  | backbone =>
    have hmem := Dict.get?_eq_some_iff.mp (show (exampleKeys secret).backbone.presharedKeys.get? pair = some key from h)
    obtain ⟨rfl, rfl⟩ := Prod.mk.inj (List.mem_singleton.mp hmem)
    simp [exampleSymm]

theorem valid_exampleKeys {secret : String} (hnew : secret ∉ ["a", "b", "d", "e"]) : (exampleKeys secret).Valid := by
  have hasymm : ∀ x ∈ exampleAsymm secret, x.dropped = false ∧ x.privateKey ≠ none := by simp [exampleAsymm]
  have hsymm : ∀ x ∈ exampleSymm, x.dropped = false ∧ x.value ≠ none := by decide
  have hunique : ∀ x ∈ exampleAsymm secret, ∀ y ∈ exampleAsymm secret,
      x.publicKey = y.publicKey ∨ x.privateKey = y.privateKey → x.keyId = y.keyId := by
    simp only [List.mem_cons, List.not_mem_nil, or_false, not_or] at hnew
    obtain ⟨ha, hb, hd, he⟩ := hnew
    simp [exampleAsymm, ha, hb, hd, he, Ne.symm ha, Ne.symm hb, Ne.symm hd, Ne.symm he]
  refine ⟨fun i key h => ?_, fun i key h => ?_, fun i j key key' h h' heq => ?_, fun i j key key' h h' heq => ?_,
    asymmNumber_injective, symmNumber_injective, fun pair hpair => ?_, fun pair hpair => ?_, fun _ => .nil⟩
  · obtain ⟨hmem, hid⟩ := mem_exampleAsymm h
    exact ⟨hid, hasymm key hmem⟩
  · obtain ⟨hmem, hid⟩ := mem_exampleSymm h
    exact ⟨hid, hsymm key hmem⟩
  · obtain ⟨hmem, rfl⟩ := mem_exampleAsymm h
    obtain ⟨hmem', rfl⟩ := mem_exampleAsymm h'
    exact hunique key hmem key' hmem' heq
  · obtain ⟨hmem, rfl⟩ := mem_exampleSymm h
    obtain ⟨hmem', rfl⟩ := mem_exampleSymm h'
    have hvalue : ∀ x ∈ exampleSymm, ∀ y ∈ exampleSymm, x.value = y.value → x.keyId = y.keyId := by decide
    exact hvalue key hmem key' hmem' heq
  · rw [List.mem_singleton.mp hpair]
    decide
  · rw [List.mem_singleton.mp hpair]
    decide

theorem asymmAt_pair_exampleKeys (secret secret' : String) (v : Vpn) (pair : ℕ × ℕ) (n : ℕ) :
    (exampleKeys secret).asymmAt (.pair v pair n) = (exampleKeys secret').asymmAt (.pair v pair n) := by
  cases v with
  | root => rfl
  | particles c => rfl
  | backbone =>
    match n with
    | 0 => rfl
    | 1 => rfl
    | n + 2 => rfl

/-- The example with two private keys for the second cell: the first cell does not see the difference. -/
theorem agreeFor_exampleKeys (secret secret' : String) : AgreeFor 1 false (exampleKeys secret) (exampleKeys secret') := by
  refine ⟨rfl, rfl, rfl, rfl, rfl, fun i => ?_, fun i => rfl, fun i hi => ?_, fun i _ => rfl⟩
  · cases i with
    | root v =>
      cases v with
      | root => rfl
      | particles c => rfl
      | backbone => rfl
    | pair v pair n => rw [asymmAt_pair_exampleKeys]
    | peer v p =>
      cases v with
      | root =>
        show ((exampleKeys secret).root.peerKeys.get? p).map _ = ((exampleKeys secret').root.peerKeys.get? p).map _
        simp only [exampleKeys, Dict.get?, Dict.lookupEntry]
        split_ifs <;> rfl
      | particles c => rfl
      | backbone => rfl
  · rcases hi with rfl | ⟨pair, -, rfl⟩ | ⟨henabled, -⟩
    · rfl
    · exact asymmAt_pair_exampleKeys secret secret' _ _ _
    · cases henabled

theorem cell_package_confidential_example :
    (exampleKeys "c").generateCellDatabase 1 false = (exampleKeys "x").generateCellDatabase 1 false ∧
    ∃ db, (exampleKeys "c").generateCellDatabase 1 false = .ok db ∧
      ∀ i, (∃ r ∈ db.asymmKeys, r.key.keyId = i ∧ r.key.privateKey ≠ none) ↔ (exampleKeys "c").OwnKey 1 false i := by
  have hvalid : (exampleKeys "c").Valid := valid_exampleKeys (by decide)
  obtain ⟨hagree, hrows⟩ := @cell_package_confidential _ 1 false hvalid (by decide)
  exact ⟨hagree _ (valid_exampleKeys (by decide)) (agreeFor_exampleKeys _ _), _, rfl, (hrows _ rfl).1⟩

end UvnKeys

end Uno
