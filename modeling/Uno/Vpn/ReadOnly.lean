import Uno.Vpn.KeyMap
import Uno.Vpn.Ends

/-!
# Key maps of read-only registries

`dispatch_if` sends the calls of a method of a read-only object to another method, with `*kw` in the place of
`**kw`, so that the names of the keyword arguments arrive as positional ones (`rerouted_eq_self_iff`). The
read-only `assert_pair` of a key map returns the keys of a pair without the flag that the writable one returns
with them; that of the key material returns both.
-/

namespace Uno

open PairedValuesMap

/-! ### Calls -/

/-- An argument of a call: a peer, a text, or `None` or another object. -/
inductive PyArg (β : Type) where
  | peer (id : ℕ)
  | name (text : String)
  | value (v : Option β)
  deriving DecidableEq

structure PyCall (β : Type) where
  args : List (PyArg β)
  kwargs : List (String × PyArg β)
  deriving DecidableEq

section calls
variable {β : Type}

/-- The call `dispatch_other(self, *a, *kw)`: a dictionary unpacked with one star gives its keys. -/
def PyCall.rerouted (c : PyCall β) : PyCall β := ⟨c.args ++ c.kwargs.map fun e => .name e.1, []⟩

/-- The values of the parameters of a call; the first ones have no default. -/
def bindArgs (params : List String) (required : ℕ) (c : PyCall β) : Result (List (Option (PyArg β))) :=
  let unset := params.drop c.args.length
  let bound := c.args.map some ++ unset.map fun p => Dict.lookupEntry p c.kwargs
  if params.length < c.args.length ∨ ¬ ∀ e ∈ c.kwargs, e.1 ∈ unset then
    .error (.type "got an unexpected argument")
  else if (bound.take required).any Option.isNone then .error (.type "missing a required argument")
  else .ok bound

/-- `pair_key(peer_a, peer_b)`; a pair of texts is no key of a map of peers. -/
def pairKeyOf : PyArg β → PyArg β → Result (Option (ℕ × ℕ))
  | .peer a, .peer b => .ok (some (pairKey a b))
  | .name _, .name _ => .ok none
  | _, _ => .error (.type "'>' not supported")

/-- Keyword arguments do not survive, and nothing else changes. -/
theorem rerouted_eq_self_iff (c : PyCall β) : c.rerouted = c ↔ c.kwargs = [] := by
  obtain ⟨args, kwargs⟩ := c
  constructor
  · intro h
    exact (congrArg PyCall.kwargs h).symm
  · intro h
    obtain rfl : kwargs = [] := h
    show PyCall.mk (args ++ []) [] = _
    rw [List.append_nil]

end calls

/-- What a call of `assert_pair` returns: a value and whether it was generated, or a value alone. -/
inductive AssertResult (β : Type) where
  | tuple (value : β) (created : Bool)
  | value (v : β)
  deriving DecidableEq

/-! ### Key maps -/

namespace VpnKeysMap

variable (kind : KeysMapKind) (source : ℕ → String)

/-- `assert_pair(peer_a, peer_b, val)` of a writable map. -/
def assertPairWith (m : VpnKeysMap) (peerA peerB : ℕ) :
    Option (List KeyObject) → Result ((List KeyObject × Bool) × VpnKeysMap)
  | none => m.assertPair kind source peerA peerB
  | some val => do
    let (asserted, content) ← PairedValuesMap.assertPair (fun _ _ => Except.ok val) m.content peerA peerB
    .ok (asserted, { m with content := content })

/-- `_ro_assert_pair(peer_a, peer_b, val)`, and the map after it. -/
def roAssertPair (m : VpnKeysMap) (c : PyCall (List KeyObject)) :
    Result (AssertResult (List KeyObject)) × VpnKeysMap :=
  let result : Result (AssertResult (List KeyObject)) := do
    match ← bindArgs ["peer_a", "peer_b", "val"] 2 c with
    | some a :: some b :: _ =>
      match (← pairKeyOf a b).bind m.content.get? with
      | some keys => .ok (.value keys)
      | none => .error .missingKeyMaterial
    | _ => .error (.type "missing a required argument")
  (result, m)

/-- `assert_pair` of a read-only map: `@dispatch_if("readonly", "_ro_assert_pair")`. -/
def readonlyAssertPair (m : VpnKeysMap) (c : PyCall (List KeyObject)) :
    Result (AssertResult (List KeyObject)) × VpnKeysMap := m.roAssertPair c.rerouted

/-- The call gives the map two peers and a value. -/
def Binds (c : PyCall (List KeyObject)) (a b : ℕ) (val : Option (List KeyObject)) : Prop :=
  bindArgs ["peer_a", "peer_b", "val"] 2 c = .ok [some (.peer a), some (.peer b), none] ∧ val = none ∨
    bindArgs ["peer_a", "peer_b", "val"] 2 c = .ok [some (.peer a), some (.peer b), some (.value val)]

/-- `assert_pair` of a read-only map does what that of a writable one does: it returns the same when the pair is
present, raises when it is absent, and passes its arguments on as they are. -/
structure AgreesOn (m : VpnKeysMap) (c : PyCall (List KeyObject)) (a b : ℕ) (val : Option (List KeyObject)) :
    Prop where
  args : c.rerouted = c
  present : ∀ keys, m.content.get? (pairKey a b) = some keys →
    ∃ r, m.assertPairWith kind source a b val = .ok (r, m) ∧
      m.readonlyAssertPair c = (.ok (.tuple r.1 r.2), m)
  absent : m.content.get? (pairKey a b) = none → m.readonlyAssertPair c = (.error .missingKeyMaterial, m)

variable {kind source}

theorem roAssertPair_of_binds {m : VpnKeysMap} {c : PyCall (List KeyObject)} {a b : ℕ}
    {val : Option (List KeyObject)} (h : Binds c a b val) :
    m.roAssertPair c = (match m.content.get? (pairKey a b) with
      | some keys => .ok (.value keys)
      | none => .error .missingKeyMaterial, m) := by
  unfold roAssertPair
  rcases h with ⟨hbind, -⟩ | hbind <;> rw [hbind] <;> rfl

/-- The two calls agree only on absent pairs, and only without keyword arguments. -/
theorem agreesOn_iff {m : VpnKeysMap} {c : PyCall (List KeyObject)} {a b : ℕ} {val : Option (List KeyObject)}
    (h : Binds c a b val) :
    m.AgreesOn kind source c a b val ↔ c.kwargs = [] ∧ m.content.get? (pairKey a b) = none := by
  constructor
  · intro hagrees
    refine ⟨(rerouted_eq_self_iff c).mp hagrees.args, ?_⟩
    cases hkeys : m.content.get? (pairKey a b) with
    | none => rfl
    | some keys =>
      obtain ⟨r, -, hro⟩ := hagrees.present keys hkeys
      rw [readonlyAssertPair, hagrees.args, roAssertPair_of_binds h, hkeys] at hro
      cases hro
  · rintro ⟨hkwargs, hnone⟩
    have hargs := (rerouted_eq_self_iff c).mpr hkwargs
    refine ⟨hargs, fun keys hkeys => ?_, fun _ => ?_⟩
    · rw [hnone] at hkeys
      cases hkeys
    · rw [readonlyAssertPair, hargs, roAssertPair_of_binds h, hnone]

end VpnKeysMap

/-! ### Key material of links -/

namespace P2pVpnKeyMaterial

/-- The keys of a pair and its preshared key. -/
abbrev PairMaterial := (WireGuardKeyPair × WireGuardKeyPair) × String

/-- `get_pair_material`. -/
def getPairMaterial (k : P2pVpnKeyMaterial) (a b : PyArg Unit) : Result PairMaterial := do
  let pair ← pairKeyOf a b
  match pair.bind k.pairKeys.get?, pair.bind k.presharedKeys.get? with
  | some keys, some psk => .ok (keys, psk)
  | _, _ => .error .missingKeyMaterial

/-- `_ro_assert_pair(peer_a, peer_b)`, and the key material after it. -/
def roAssertPair (k : P2pVpnKeyMaterial) (c : PyCall Unit) :
    Result (AssertResult PairMaterial) × P2pVpnKeyMaterial :=
  let result : Result (AssertResult PairMaterial) := do
    match ← bindArgs ["peer_a", "peer_b"] 2 c with
    | some a :: some b :: _ => do
      let material ← k.getPairMaterial a b
      .ok (.tuple material false)
    | _ => .error (.type "missing a required argument")
  (result, k)

/-- `assert_pair` of read-only key material. -/
def readonlyAssertPair (k : P2pVpnKeyMaterial) (c : PyCall Unit) :
    Result (AssertResult PairMaterial) × P2pVpnKeyMaterial := k.roAssertPair c.rerouted

/-- The call gives the key material two peers. -/
def Binds (c : PyCall Unit) (a b : ℕ) : Prop :=
  bindArgs ["peer_a", "peer_b"] 2 c = .ok [some (.peer a), some (.peer b)]

/-- As for a key map. -/
structure AgreesOn (source : KeySource) (k : P2pVpnKeyMaterial) (c : PyCall Unit) (a b : ℕ) : Prop where
  args : c.rerouted = c
  present : ∀ keys psk, k.Holds a b keys psk →
    ∃ r, k.assertPair source a b = .ok (r, k) ∧
      k.readonlyAssertPair c = (.ok (.tuple r.1 r.2), k)
  absent : (¬ ∃ keys psk, k.Holds a b keys psk) → k.readonlyAssertPair c = (.error .missingKeyMaterial, k)

variable {source : KeySource} {k : P2pVpnKeyMaterial} {c : PyCall Unit} {a b : ℕ}

theorem roAssertPair_of_holds {keys : WireGuardKeyPair × WireGuardKeyPair} {psk : String} (h : Binds c a b)
    (hholds : k.Holds a b keys psk) : k.roAssertPair c = (.ok (.tuple (keys, psk) false), k) := by
  have hmaterial : k.getPairMaterial (.peer a) (.peer b) = .ok (keys, psk) := by
    show (match k.pairKeys.get? (pairKey a b), k.presharedKeys.get? (pairKey a b) with
      | some keys, some psk => (.ok (keys, psk) : Result PairMaterial)
      | _, _ => .error .missingKeyMaterial) = _
    rw [hholds.1, hholds.2]
  unfold roAssertPair
  rw [show bindArgs ["peer_a", "peer_b"] 2 c = _ from h, Except.ok_bind]
  simp only [hmaterial, Except.ok_bind]

theorem roAssertPair_of_not_holds (h : Binds c a b) (hnone : ¬ ∃ keys psk, k.Holds a b keys psk) :
    k.roAssertPair c = (.error .missingKeyMaterial, k) := by
  have hmaterial : k.getPairMaterial (.peer a) (.peer b) = .error .missingKeyMaterial := by
    show (match k.pairKeys.get? (pairKey a b), k.presharedKeys.get? (pairKey a b) with
      | some keys, some psk => (.ok (keys, psk) : Result PairMaterial)
      | _, _ => .error .missingKeyMaterial) = _
    split
    · next keys psk hkeys hpsk => exact absurd ⟨keys, psk, hkeys, hpsk⟩ hnone
    · rfl
  unfold roAssertPair
  rw [show bindArgs ["peer_a", "peer_b"] 2 c = _ from h, Except.ok_bind]
  simp only [hmaterial]
  rfl

theorem agreesOn_iff (h : Binds c a b) : k.AgreesOn source c a b ↔ c.kwargs = [] := by
  constructor
  · intro hagrees
    exact (rerouted_eq_self_iff c).mp hagrees.args
  · intro hkwargs
    have hargs := (rerouted_eq_self_iff c).mpr hkwargs
    refine ⟨hargs, fun keys psk hholds => ?_, fun hnone => ?_⟩
    · refine ⟨_, assertPair_of_holds source hholds, ?_⟩
      rw [readonlyAssertPair, hargs, roAssertPair_of_holds h hholds]
    · rw [readonlyAssertPair, hargs, roAssertPair_of_not_holds h hnone]

end P2pVpnKeyMaterial

/-! ### When the calls agree -/

/-- The read-only and the writable calls agree exactly when the call has no keyword arguments and, for a key map,
the pair is absent. -/
theorem readonly_assert_pair_iff (kind : KeysMapKind) (m : VpnKeysMap) (k : P2pVpnKeyMaterial) :
    (∀ (source : ℕ → String) (c : PyCall (List KeyObject)) (a b : ℕ) (val : Option (List KeyObject)),
      VpnKeysMap.Binds c a b val →
        (m.AgreesOn kind source c a b val ↔ c.kwargs = [] ∧ m.content.get? (pairKey a b) = none)) ∧
    ∀ (source : KeySource) (c : PyCall Unit) (a b : ℕ), P2pVpnKeyMaterial.Binds c a b →
      (k.AgreesOn source c a b ↔ c.kwargs = []) :=
  ⟨fun _ _ _ _ _ h => VpnKeysMap.agreesOn_iff h, fun _ _ _ _ h => P2pVpnKeyMaterial.agreesOn_iff h⟩

/-- A map with the keys of one pair. -/
def onePairMap : VpnKeysMap := ⟨⟨[((1, 2), [⟨1, "a"⟩, ⟨2, "b"⟩])], by decide⟩, ∅, ∅, .empty⟩

/-- The keys of one link. -/
def oneLinkMaterial : P2pVpnKeyMaterial where
  pairKeys := (∅ : Dict (ℕ × ℕ) _).set (1, 2) (⟨"a", "A"⟩, ⟨"b", "B"⟩)
  presharedKeys := (∅ : Dict (ℕ × ℕ) _).set (1, 2) "p"
  generated := 1

/-- The map is asked for another pair than its own, the material for the pair it has. -/
theorem readonly_assert_pair_agrees :
    (VpnKeysMap.AgreesOn .paired Nat.repr onePairMap ⟨[.peer 1, .peer 3], []⟩ 1 3 none ∧
      (onePairMap.readonlyAssertPair ⟨[.peer 1, .peer 3], []⟩).1 = .error .missingKeyMaterial) ∧
    P2pVpnKeyMaterial.AgreesOn ⟨fun _ => ⟨"", ""⟩, fun _ => ""⟩ oneLinkMaterial ⟨[.peer 2, .peer 1], []⟩ 2 1 ∧
      (oneLinkMaterial.readonlyAssertPair ⟨[.peer 2, .peer 1], []⟩).1 =
        .ok (.tuple ((⟨"a", "A"⟩, ⟨"b", "B"⟩), "p") false) := by
  have hmap : VpnKeysMap.Binds ⟨[.peer 1, .peer 3], []⟩ 1 3 none := .inl ⟨rfl, rfl⟩
  have hmaterial : P2pVpnKeyMaterial.Binds ⟨[.peer 2, .peer 1], []⟩ 2 1 := rfl
  have hiff := readonly_assert_pair_iff .paired onePairMap oneLinkMaterial
  exact ⟨⟨(hiff.1 _ _ _ _ _ hmap).mpr ⟨rfl, rfl⟩, rfl⟩, (hiff.2 _ _ _ _ hmaterial).mpr rfl, rfl⟩

/-- The keys come without the flag, and a keyword argument arrives as a positional text. -/
theorem readonly_assert_pair_differs :
    (onePairMap.readonlyAssertPair ⟨[.peer 1, .peer 2], []⟩).1 = .ok (.value [⟨1, "a"⟩, ⟨2, "b"⟩]) ∧
      ¬ onePairMap.AgreesOn .paired Nat.repr ⟨[.peer 1, .peer 2], []⟩ 1 2 none ∧
      (⟨[.peer 1], [("peer_b", .peer 2)]⟩ : PyCall Unit).rerouted = ⟨[.peer 1, .name "peer_b"], []⟩ := by
  refine ⟨rfl, fun h => ?_, rfl⟩
  obtain ⟨r, -, hro⟩ := h.present _ rfl
  cases hro

end Uno
