import Uno.Deploy.Deployments

/-!
# The addresses of backbone links

The blocks that `P2pLinkAllocationMap` hands out lie in the subnet after its first two addresses, are
disjoint, and stay with their pairs (`assertPairs_addressing`). So the interfaces of a deployment have
different addresses, whatever the strategy (`Generated.deploy_addresses`).
-/

namespace Uno

open PairedValuesMap

/-! ### Blocks -/

namespace IsBlock

variable {subnet : IPv4Network} {i j : ℕ} {value value' : LinkAllocation}

theorem stop_eq (h : IsBlock subnet i value) : value.network.stop = subnet.networkAddress.toNat + 4 + 2 * i := by
  rw [IPv4Network.stop, IPv4Network.numAddresses, h.prefixlen, h.network]
  omega

theorem stop_le (h : IsBlock subnet i value) (hi : i < subnet.capacity) : value.network.stop ≤ subnet.stop := by
  obtain ⟨-, hstop, -⟩ := LinkAllocator.of_lt_capacity hi
  rw [h.stop_eq]
  omega

theorem not_overlaps (h : IsBlock subnet i value) (h' : IsBlock subnet j value') (hne : i ≠ j) :
    ¬ value.network.overlaps value'.network := by
  rw [IPv4Network.overlaps_iff, h.stop_eq, h'.stop_eq, h.network, h'.network]
  omega

theorem pick_toNat (h : IsBlock subnet i value) {a b : ℕ} (hab : a < b) :
    (pick a b a value.addresses).toNat = value.network.networkAddress.toNat ∧
    (pick a b b value.addresses).toNat = value.network.networkAddress.toNat + 1 := by
  obtain ⟨hfst, hsnd⟩ := pick_self_of_lt hab value.addresses
  rw [hfst, hsnd, h.fst, h.snd, h.network]
  omega

theorem pick_injective (h : IsBlock subnet i value) (h' : IsBlock subnet j value') {a b a' b' : ℕ}
    (heq : pick a b a value.addresses = pick a' b' a' value'.addresses) :
    i = j ∧ (pick a b a value.addresses = value.addresses.1 ↔ pick a' b' a' value'.addresses = value'.addresses.1) := by
  have hcases : ∀ (c d : ℕ) (v : LinkAllocation), pick c d c v.addresses = v.addresses.1 ∨
      pick c d c v.addresses = v.addresses.2 := by
    intro c d v
    unfold pick
    split_ifs
    · exact .inl rfl
    · exact .inr rfl
  have hfst := h.fst
  have hsnd := h.snd
  have hfst' := h'.fst
  have hsnd' := h'.snd
  have hne := h.fst_ne_snd
  have hne' := h'.fst_ne_snd
  rcases hcases a b value with hv | hv <;> rcases hcases a' b' value' with hv' | hv' <;>
    rw [hv, hv'] at heq <;> rw [hv, hv'] <;> have hnat := congrArg IPv4Address.toNat heq
  · exact ⟨by omega, ⟨fun _ => rfl, fun _ => rfl⟩⟩
  · omega
  · omega
  · exact ⟨by omega, ⟨fun h => absurd h.symm hne, fun h => absurd h.symm hne'⟩⟩

end IsBlock

/-! ### What the map hands out -/

/-- The values of a map for a subnet. -/
structure Addressed (subnet : IPv4Network) (m : P2pLinkAllocationMap) : Prop where
  within : ∀ k value, m.pairs.get? k = some value → value.network.prefixlen = 31 ∧
    subnet.networkAddress.toNat + 2 ≤ value.network.networkAddress.toNat ∧ value.network.stop ≤ subnet.stop
  disjoint : ∀ k k' value value', m.pairs.get? k = some value → m.pairs.get? k' = some value' → k ≠ k' →
    ¬ value.network.overlaps value'.network
  ends : ∀ a b value, a < b → m.pairs.get? (pairKey a b) = some value →
    (pick a b a value.addresses).toNat = value.network.networkAddress.toNat ∧
    (pick a b b value.addresses).toNat = value.network.networkAddress.toNat + 1

namespace P2pLinkAllocationMap

variable {subnet : IPv4Network} {m m' : P2pLinkAllocationMap} {k k' : ℕ × ℕ} {value value' : LinkAllocation}

theorem Allocated.exists_index (hm : m.Allocated) (h : m.pairs.get? k = some value) :
    ∃ i, i < m.allocator.subnet.capacity ∧ m.pairs.entries[i]? = some (k, value) ∧
      IsBlock m.allocator.subnet i value := by
  obtain ⟨i, hi⟩ := List.mem_iff_getElem?.mp (Dict.get?_eq_some_iff.mp h)
  have hlt : i < m.pairs.size := (List.getElem?_eq_some_iff.mp hi).1
  exact ⟨i, Nat.lt_of_lt_of_le hlt hm.le, hi, hm.block i k value hi⟩

theorem Allocated.addressed (hm : m.Allocated) : Addressed m.allocator.subnet m where
  within k value hk := by
    obtain ⟨i, hlt, -, hblock⟩ := hm.exists_index hk
    refine ⟨hblock.prefixlen, ?_, hblock.stop_le hlt⟩
    rw [hblock.network]
    omega
  disjoint k k' value value' hk hk' hne := by
    obtain ⟨i, -, hi, hblock⟩ := hm.exists_index hk
    obtain ⟨j, -, hj, hblock'⟩ := hm.exists_index hk'
    refine hblock.not_overlaps hblock' ?_
    rintro rfl
    rw [hi] at hj
    cases hj
    exact hne rfl
  ends a b value hab hk := by
    obtain ⟨i, -, -, hblock⟩ := hm.exists_index hk
    exact hblock.pick_toNat hab

theorem Allocated.pick_injective (hm : m.Allocated) {a b a' b' : ℕ} (hk : m.pairs.get? (pairKey a b) = some value)
    (hk' : m.pairs.get? (pairKey a' b') = some value')
    (heq : pick a b a value.addresses = pick a' b' a' value'.addresses) : a = a' ∧ b = b' := by
  obtain ⟨i, -, hi, hblock⟩ := hm.exists_index hk
  obtain ⟨j, -, hj, hblock'⟩ := hm.exists_index hk'
  obtain ⟨rfl, hside⟩ := hblock.pick_injective hblock' heq
  rw [hi] at hj
  obtain ⟨hkey, rfl⟩ := Prod.mk.inj (Option.some.inj hj)
  rcases pairKey_eq_iff.mp hkey with hsame | ⟨rfl, rfl⟩
  · exact hsame
  · by_cases hab : a = b
    · exact ⟨hab, hab.symm⟩
    · rw [pick_comm b a b] at heq
      rcases pick_halves hab value.addresses with ⟨ha, hb⟩ | ⟨ha, hb⟩
      · rw [ha, hb] at heq
        exact absurd heq hblock.fst_ne_snd
      · rw [ha, hb] at heq
        exact absurd heq.symm hblock.fst_ne_snd

theorem assertPair_again {a b : ℕ} (h : m.pairs.get? (pairKey a b) = some value) :
    m.assertPair a b = .ok ((value, false), m) ∧ m.assertPair b a = .ok ((value, false), m) :=
  ⟨assertPair_of_get? h, assertPair_of_get? (by rwa [pairKey_comm])⟩

theorem assertPairs_answer (hm : m.Allocated) {before after : List (ℕ × ℕ)} {a b : ℕ}
    (h : m.assertPairs (before ++ (a, b) :: after) = .ok m') :
    ∃ m₁ m₂ value generated, m.assertPairs before = .ok m₁ ∧ m₁.assertPair a b = .ok ((value, generated), m₂) ∧
      m'.pairs.get? (pairKey a b) = some value := by
  rw [assertPairs_append, Except.bind_eq_ok_iff] at h
  obtain ⟨m₁, hbefore, h⟩ := h
  obtain ⟨hm₁, -, -⟩ := assertPairs_eq_ok hm hbefore
  rw [← List.singleton_append, assertPairs_append, assertPairs_singleton, bind_assoc, Except.bind_eq_ok_iff] at h
  obtain ⟨⟨⟨value, generated⟩, m₂⟩, hrequest, hafter⟩ := h
  obtain ⟨hm₂, -, -, hget, -⟩ := assertPair_eq_ok hm₁ hrequest
  obtain ⟨-, hext, -⟩ := assertPairs_eq_ok hm₂ hafter
  exact ⟨m₁, m₂, value, generated, hbefore, hrequest, hext _ _ hget⟩

end P2pLinkAllocationMap

/-! ### The interfaces of a deployment -/

/-- The links of a deployment have the addresses that the map holds for their pairs. -/
def Drawn (m : P2pLinkAllocationMap) (a : ℕ) (links : Dict ℕ Link) : Prop :=
  ∀ b link, links.get? b = some link → ∃ i value, m.pairs.get? (pairKey a b) = some value ∧ link = mkLink a b i value

theorem Drawn.extends {m m' : P2pLinkAllocationMap} {a : ℕ} {links : Dict ℕ Link} (h : Drawn m a links)
    (hext : m.Extends m') : Drawn m' a links := by
  intro b link hlink
  obtain ⟨i, value, hvalue, heq⟩ := h b link hlink
  exact ⟨i, value, hext _ _ hvalue, heq⟩

namespace Generated

variable {g : Generated} {m m' : P2pLinkAllocationMap} {links links' : Dict ℕ Link} {n a i : ℕ}

theorem deployPort_drawn (hm : m.Allocated) (hlinks : Drawn m a links)
    (h : g.deployPort n a (links, m) i = .ok (links', m')) : m'.Allocated ∧ m.Extends m' ∧ Drawn m' a links' := by
  unfold deployPort at h
  rw [Except.bind_eq_ok_iff] at h
  obtain ⟨connection, -, h⟩ := h
  rw [Except.bind_eq_ok_iff] at h
  obtain ⟨peerBn, -, h⟩ := h
  cases peerBn with
  | none =>
    cases h
    exact ⟨hm, P2pLinkAllocationMap.Extends.refl _, hlinks⟩
  | some peerBn =>
    dsimp only at h
    rw [Except.bind_eq_ok_iff] at h
    obtain ⟨peerB, -, h⟩ := h
    rw [Except.bind_eq_ok_iff] at h
    obtain ⟨⟨⟨value, generated⟩, m₁⟩, hrequest, h⟩ := h
    cases h
    obtain ⟨hm', hext, -, hget, -⟩ := P2pLinkAllocationMap.assertPair_eq_ok hm hrequest
    refine ⟨hm', hext, fun b link hlink => ?_⟩
    rw [Dict.get?_set] at hlink
    split_ifs at hlink with hb
    · subst hb
      cases hlink
      exact ⟨i, value, hget, rfl⟩
    · exact hlinks.extends hext b link hlink

theorem deployPeer_drawn {res res' : P2pLinksMap} {x : ℕ × ℕ} (hm : m.Allocated)
    (hres : ∀ a p, res.get? a = some p → Drawn m a p.peers) (h : g.deployPeer (res, m) x = .ok (res', m')) :
    m'.Allocated ∧ ∀ a p, res'.get? a = some p → Drawn m' a p.peers := by
  unfold deployPeer at h
  rw [Except.bind_eq_ok_iff] at h
  obtain ⟨count, -, h⟩ := h
  rw [Except.bind_eq_ok_iff] at h
  obtain ⟨⟨links, m₁⟩, hports, h⟩ := h
  cases h
  have hinv := Fold.foldlM_invariant (P := fun acc => acc.2.Allocated ∧ m.Extends acc.2 ∧ Drawn acc.2 x.1 acc.1)
    (fun acc acc' i _ hacc hstep => by
      obtain ⟨hm₁, hext, hlinks⟩ := hacc
      obtain ⟨hm₂, hext', hlinks'⟩ := deployPort_drawn hm₁ hlinks hstep
      exact ⟨hm₂, hext.trans hext', hlinks'⟩)
    ⟨hm, P2pLinkAllocationMap.Extends.refl m, fun b link hlink => by cases hlink⟩ hports
  obtain ⟨hm', hext, hlinks⟩ := hinv
  refine ⟨hm', fun a p hp => ?_⟩
  rw [Dict.get?_set] at hp
  split_ifs at hp with ha
  · subst ha
    cases hp
    exact hlinks
  · exact (hres a p hp).extends hext

theorem deploy_drawn {res : P2pLinksMap} (hm : m.Allocated) (h : g.deploy m = .ok (res, m')) :
    m'.Allocated ∧ ∀ a p, res.get? a = some p → Drawn m' a p.peers :=
  Fold.foldlM_invariant (P := fun acc => acc.2.Allocated ∧ ∀ a p, acc.1.get? a = some p → Drawn acc.2 a p.peers)
    (fun _ _ _ _ hacc hstep => deployPeer_drawn hacc.1 hacc.2 hstep) ⟨hm, fun a p hp => by cases hp⟩ h

end Generated

/-- The interfaces of a links map: all have different addresses, and the two ends of a link mirror each
other. -/
structure DistinctAddresses (res : P2pLinksMap) : Prop where
  injective : ∀ a p b link a' p' b' link', res.get? a = some p → p.peers.get? b = some link →
    res.get? a' = some p' → p'.peers.get? b' = some link' → link.address = link'.address → a = a' ∧ b = b'
  mirrored : ∀ a p b link p' link', res.get? a = some p → p.peers.get? b = some link → res.get? b = some p' →
    p'.peers.get? a = some link' →
    link.address = link'.peerAddress ∧ link.peerAddress = link'.address ∧ link.network = link'.network

/-- Whatever a strategy generates, the interfaces of the deployment have different addresses. -/
theorem Generated.deploy_addresses {g : Generated} {m m' : P2pLinkAllocationMap} {res : P2pLinksMap}
    (hm : m.Allocated) (h : g.deploy m = .ok (res, m')) : DistinctAddresses res := by
  obtain ⟨hm', hdrawn⟩ := deploy_drawn hm h
  constructor
  · intro a p b link a' p' b' link' hp hlink hp' hlink' heq
    obtain ⟨i, value, hvalue, rfl⟩ := hdrawn a p hp b link hlink
    obtain ⟨j, value', hvalue', rfl⟩ := hdrawn a' p' hp' b' link' hlink'
    exact hm'.pick_injective hvalue hvalue' heq
  · intro a p b link p' link' hp hlink hp' hlink'
    obtain ⟨i, value, hvalue, rfl⟩ := hdrawn a p hp b link hlink
    obtain ⟨j, value', hvalue', rfl⟩ := hdrawn b p' hp' a link' hlink'
    rw [pairKey_comm, hvalue] at hvalue'
    cases hvalue'
    exact ⟨pick_comm a b a _, pick_comm a b b _, rfl⟩

/-! ### Sequences of requests -/

namespace P2pLinkAllocationMap

/-- In a subnet of at least four addresses that does not end the address space a sequence of requests
succeeds exactly while the distinct pairs fit, each pair keeps its one block, and every deployment on the
fresh map has different addresses. -/
theorem assertPairs_addressing {subnet : IPv4Network} (hlen : subnet.prefixlen ≤ 30) (hstop : subnet.stop < 2 ^ 32)
    (requests : List (ℕ × ℕ)) :
    ∃ m, new subnet = .ok m ∧
      ((∃ m', m.assertPairs requests = .ok m') ↔ (requestedPairs requests).card ≤ 2 ^ (31 - subnet.prefixlen) - 1) ∧
      (∀ m', m.assertPairs requests = .ok m' → Addressed subnet m' ∧
        (∀ before a b after, requests = before ++ (a, b) :: after → ∃ m₁ m₂ value generated,
          m.assertPairs before = .ok m₁ ∧ m₁.assertPair a b = .ok ((value, generated), m₂) ∧
          m'.pairs.get? (pairKey a b) = some value ∧
          m'.assertPair a b = .ok ((value, false), m') ∧ m'.assertPair b a = .ok ((value, false), m'))) ∧
      ∀ (g : Generated) res m', g.deploy m = .ok (res, m') → DistinctAddresses res := by
  have hnum := subnet.numAddresses_pos
  have hlt : subnet.networkAddress.toNat + 2 < 2 ^ 32 := by
    have hfour : 4 ≤ subnet.numAddresses := by
      unfold IPv4Network.numAddresses
      calc 4 = 2 ^ 2 := rfl
        _ ≤ 2 ^ (32 - subnet.prefixlen) := Nat.pow_le_pow_right (by norm_num) (by omega)
    unfold IPv4Network.stop at hstop
    omega
  have hnew : new subnet = .ok ⟨⟨subnet, ⟨subnet.networkAddress.toNat + 2, hlt⟩⟩, ∅⟩ := by
    unfold new IPv4Address.add
    rw [IPv4Address.ofNat_eq_ok hlt]
    rfl
  obtain ⟨hm, hsubnet, -⟩ := allocated_new hnew
  refine ⟨_, hnew, ?_, fun m' h => ?_, fun g res m' h => Generated.deploy_addresses hm h⟩
  · rw [assertPairs_ok_iff hnew, IPv4Network.capacity_eq hlen hstop]
  · obtain ⟨hm', -, hsubnet'⟩ := assertPairs_eq_ok hm h
    refine ⟨?_, ?_⟩
    · have haddressed := hm'.addressed
      rw [hsubnet', hsubnet] at haddressed
      exact haddressed
    · rintro before a b after rfl
      obtain ⟨m₁, m₂, value, generated, hbefore, hrequest, hget⟩ := assertPairs_answer hm h
      obtain ⟨hagain, hagain'⟩ := assertPair_again hget
      exact ⟨m₁, m₂, value, generated, hbefore, hrequest, hget, hagain, hagain'⟩

theorem assertPairs_addressing_two : ∃ m m', new (network10 16 (by decide)) = .ok m ∧
    m.assertPairs [(2, 1), (1, 3), (1, 2)] = .ok m' ∧ Addressed (network10 16 (by decide)) m' := by
  have hlen : (network10 16 (by decide)).prefixlen ≤ 30 := by decide
  have hstop : (network10 16 (by decide)).stop < 2 ^ 32 := by decide
  obtain ⟨m, hnew, hiff, haddressed, -⟩ := assertPairs_addressing hlen hstop [(2, 1), (1, 3), (1, 2)]
  obtain ⟨m', hok⟩ := hiff.mpr (by decide)
  exact ⟨m, m', hnew, hok, (haddressed m' hok).1⟩

end P2pLinkAllocationMap

end Uno
