import Uno.Core.Ip
import Uno.Core.Paired

/-!
# Addresses of backbone links

`P2pLinkAllocationMap` hands out the `/31` blocks of the backbone subnet, one for each unordered
pair of peers, starting after the subnet's first block.

`capacity` is the number of blocks it can hand out. The invariant `Allocated` says that the `i`-th
pair it was asked about holds the `i`-th block and that the next address is the one after the last
block; `assertPair` keeps it, and succeeds exactly while the pair is known or a block is left
(`assertPair_spec`). Hence a sequence of requests succeeds exactly when the number of distinct pairs
does not exceed the capacity (`assertPairs_ok_iff`).
-/

namespace Uno

open PairedValuesMap

/-- The value of a pair: the addresses of its two ends, the smaller id's first, and their network. -/
structure LinkAllocation where
  addresses : IPv4Address × IPv4Address
  network : IPv4Network
  deriving DecidableEq

/-- The allocator's own attributes. -/
structure LinkAllocator where
  subnet : IPv4Network
  nextIp : IPv4Address
  deriving DecidableEq

structure P2pLinkAllocationMap where
  allocator : LinkAllocator
  pairs : PairedValuesMap LinkAllocation
  deriving DecidableEq

namespace LinkAllocator

def allocateIp (s : LinkAllocator) : Result (IPv4Address × LinkAllocator) :=
  if s.subnet.contains s.nextIp then do
    let next ← s.nextIp.add 1
    .ok (s.nextIp, { s with nextIp := next })
  else .error (.runtime "exceeded allocated backbone subnet")

/-- The value for a new pair; it does not depend on the ids. -/
def generateVal (_peerA _peerB : ℕ) : StateT LinkAllocator Result LinkAllocation := fun s => do
  let (peerAIp, s) ← s.allocateIp
  let (peerBIp, s) ← s.allocateIp
  let peerANet ← IPv4Network.ofAddress peerAIp 31 (by norm_num)
  let peerBNet := IPv4Network.ofInterface peerBIp 31 (by norm_num)
  if peerANet = peerBNet then .ok (⟨(peerAIp, peerBIp), peerANet⟩, s)
  else .error (.runtime "peer addresses not in the same network")

end LinkAllocator

namespace P2pLinkAllocationMap

/-- `P2pLinkAllocationMap(subnet)`. -/
def new (subnet : IPv4Network) : Result P2pLinkAllocationMap := do
  let nextIp ← subnet.networkAddress.add 2
  .ok ⟨⟨subnet, nextIp⟩, ∅⟩

def assertPair (m : P2pLinkAllocationMap) (peerA peerB : ℕ) :
    Result ((LinkAllocation × Bool) × P2pLinkAllocationMap) := do
  let ((value, pairs), allocator) ←
    PairedValuesMap.assertPair LinkAllocator.generateVal m.pairs peerA peerB m.allocator
  .ok (value, ⟨allocator, pairs⟩)

end P2pLinkAllocationMap

/-! ### Blocks -/

namespace IPv4Network

/-- The number of `/31` blocks after the first that lie in the network and whose successor is still
an address: the allocator steps past every address it hands out. -/
def capacity (n : IPv4Network) : ℕ :=
  (min n.stop (2 ^ 32 - 1) - n.networkAddress.toNat - 2) / 2

/-- A network of at least four addresses that does not end the address space has all of its `/31`
blocks but the first. -/
theorem capacity_eq {n : IPv4Network} (hlen : n.prefixlen ≤ 30) (hstop : n.stop < 2 ^ 32) :
    n.capacity = 2 ^ (31 - n.prefixlen) - 1 := by
  have hnum : n.numAddresses = 2 * 2 ^ (31 - n.prefixlen) := by
    rw [numAddresses, show 32 - n.prefixlen = (31 - n.prefixlen) + 1 by omega, pow_succ]; ring
  simp only [capacity, stop, hnum] at hstop ⊢
  omega

end IPv4Network

/-- The allocation of block `i` of a subnet. -/
structure IsBlock (subnet : IPv4Network) (i : ℕ) (value : LinkAllocation) : Prop where
  fst : value.addresses.1.toNat = subnet.networkAddress.toNat + 2 + 2 * i
  snd : value.addresses.2.toNat = subnet.networkAddress.toNat + 3 + 2 * i
  network : value.network.networkAddress.toNat = subnet.networkAddress.toNat + 2 + 2 * i
  prefixlen : value.network.prefixlen = 31

theorem IsBlock.fst_ne_snd {subnet : IPv4Network} {i : ℕ} {value : LinkAllocation}
    (h : IsBlock subnet i value) : value.addresses.1 ≠ value.addresses.2 := by
  intro he
  have hfst := h.fst
  have hsnd := h.snd
  rw [he] at hfst
  omega

theorem IsBlock.contains {subnet : IPv4Network} {i : ℕ} {value : LinkAllocation}
    (h : IsBlock subnet i value) :
    value.network.contains value.addresses.1 ∧ value.network.contains value.addresses.2 := by
  have hstop : value.network.stop = value.network.networkAddress.toNat + 2 := by
    rw [IPv4Network.stop, IPv4Network.numAddresses, h.prefixlen]; rfl
  have hfst := h.fst
  have hsnd := h.snd
  have hnet := h.network
  rw [IPv4Network.contains_iff, IPv4Network.contains_iff]
  omega

namespace LinkAllocator

/-- The next address is the first of block `k`. -/
def AtBlock (s : LinkAllocator) (k : ℕ) : Prop :=
  s.nextIp.toNat = s.subnet.networkAddress.toNat + 2 + 2 * k

theorem allocateIp_eq_ok {s : LinkAllocator} (hin : s.nextIp.toNat < s.subnet.stop)
    (hlow : s.subnet.networkAddress.toNat ≤ s.nextIp.toNat) (hnext : s.nextIp.toNat + 1 < 2 ^ 32) :
    s.allocateIp = .ok (s.nextIp, { s with nextIp := ⟨s.nextIp.toNat + 1, hnext⟩ }) := by
  rw [allocateIp, if_pos ((s.subnet.contains_iff _).mpr ⟨hlow, hin⟩), IPv4Address.add,
    IPv4Address.ofNat_eq_ok hnext]
  rfl

theorem allocateIp_eq_error {s : LinkAllocator}
    (h : s.subnet.stop ≤ s.nextIp.toNat ∨ 2 ^ 32 ≤ s.nextIp.toNat + 1) :
    ∃ e, s.allocateIp = .error e := by
  rw [allocateIp]
  split_ifs with hin
  · rw [IPv4Network.contains_iff] at hin
    rw [IPv4Address.add, IPv4Address.ofNat_eq_error (h.resolve_left (by omega))]
    exact ⟨_, rfl⟩
  · exact ⟨_, rfl⟩

theorem even_networkAddress {n : IPv4Network} (h : n.prefixlen ≤ 31) :
    2 ∣ n.networkAddress.toNat := by
  refine dvd_trans ?_ n.aligned
  rw [show 32 - n.prefixlen = (31 - n.prefixlen) + 1 by omega, pow_succ]
  exact Dvd.intro_left _ rfl

theorem of_lt_capacity {n : IPv4Network} {k : ℕ} (h : k < n.capacity) :
    2 ∣ n.networkAddress.toNat ∧ n.networkAddress.toNat + 2 * k + 4 ≤ n.stop ∧
      n.networkAddress.toNat + 2 * k + 4 < 2 ^ 32 := by
  have hlen : n.prefixlen ≤ 31 := by
    by_contra hbig
    have hp : n.prefixlen = 32 := by have := n.le; omega
    have : n.stop = n.networkAddress.toNat + 1 := by
      rw [IPv4Network.stop, IPv4Network.numAddresses, hp]; rfl
    rw [IPv4Network.capacity, this] at h
    omega
  refine ⟨even_networkAddress hlen, ?_⟩
  rw [IPv4Network.capacity] at h
  omega

theorem generateVal_eq_ok {s : LinkAllocator} {k : ℕ} (hat : s.AtBlock k)
    (hcap : k < s.subnet.capacity) (a b : ℕ) :
    ∃ value s', generateVal a b s = .ok (value, s') ∧ IsBlock s.subnet k value ∧
      s'.subnet = s.subnet ∧ s'.AtBlock (k + 1) := by
  obtain ⟨heven, hstop, htop⟩ := of_lt_capacity hcap
  rw [AtBlock] at hat
  have hstep1 := allocateIp_eq_ok (s := s) (by omega) (by omega) (by omega)
  let s1 : LinkAllocator := { s with nextIp := ⟨s.nextIp.toNat + 1, by omega⟩ }
  have hip1 : s1.nextIp.toNat = s.nextIp.toNat + 1 := rfl
  have hstep2 : s1.allocateIp =
      .ok (s1.nextIp, { s1 with nextIp := ⟨s1.nextIp.toNat + 1, by omega⟩ }) :=
    allocateIp_eq_ok (s := s1) (show s1.nextIp.toNat < s.subnet.stop by omega)
      (show s.subnet.networkAddress.toNat ≤ s1.nextIp.toNat by omega) (by omega)
  have hnet : IPv4Network.ofAddress s.nextIp 31 (by norm_num) =
      .ok ⟨s.nextIp, 31, by norm_num, by rw [hat]; omega⟩ := by
    rw [IPv4Network.ofAddress, dif_pos]
  have hsame : IPv4Network.ofInterface s1.nextIp 31 (by norm_num) =
      ⟨s.nextIp, 31, by norm_num, by rw [hat]; omega⟩ := by
    have : s1.nextIp.toNat - s1.nextIp.toNat % 2 ^ (32 - 31) = s.nextIp.toNat := by
      rw [hip1, hat]; omega
    simp only [IPv4Network.ofInterface, this]
  refine ⟨⟨(s.nextIp, s1.nextIp), ⟨s.nextIp, 31, by norm_num, by rw [hat]; omega⟩⟩,
    { s1 with nextIp := ⟨s1.nextIp.toNat + 1, by omega⟩ }, ?_, ?_, rfl, ?_⟩
  · rw [generateVal, hstep1]
    change (s1.allocateIp >>= _) = _
    rw [hstep2]
    change (IPv4Network.ofAddress s.nextIp 31 (by norm_num) >>= _) = _
    rw [hnet]
    change (if _ = IPv4Network.ofInterface s1.nextIp 31 (by norm_num) then _ else _) = _
    rw [hsame, if_pos rfl]
  · exact ⟨hat, by rw [hip1, hat]; omega, hat, rfl⟩
  · change s1.nextIp.toNat + 1 = s.subnet.networkAddress.toNat + 2 + 2 * (k + 1)
    omega

theorem generateVal_eq_error {s : LinkAllocator} {k : ℕ} (hat : s.AtBlock k)
    (hcap : s.subnet.capacity ≤ k) (a b : ℕ) : ∃ e, generateVal a b s = .error e := by
  rw [AtBlock] at hat
  rw [generateVal]
  by_cases hfst : s.nextIp.toNat < s.subnet.stop ∧ s.nextIp.toNat + 1 < 2 ^ 32
  · rw [allocateIp_eq_ok hfst.1 (by omega) hfst.2]
    let s1 : LinkAllocator := { s with nextIp := ⟨s.nextIp.toNat + 1, hfst.2⟩ }
    change ∃ e, (s1.allocateIp >>= _) = Except.error e
    have hip1 : s1.nextIp.toNat = s.nextIp.toNat + 1 := rfl
    obtain ⟨e, he⟩ := allocateIp_eq_error (s := s1)
      (show s.subnet.stop ≤ s1.nextIp.toNat ∨ 2 ^ 32 ≤ s1.nextIp.toNat + 1 by
        rw [IPv4Network.capacity] at hcap; omega)
    exact ⟨e, by rw [he]; rfl⟩
  · obtain ⟨e, he⟩ := allocateIp_eq_error (s := s) (by omega)
    exact ⟨e, by rw [he]; rfl⟩

end LinkAllocator

/-! ### The invariant of the map -/

namespace P2pLinkAllocationMap

/-- The pairs hold the first blocks of the subnet, in the order they were asked about. -/
structure Allocated (m : P2pLinkAllocationMap) : Prop where
  atBlock : m.allocator.AtBlock m.pairs.size
  block : ∀ (i : ℕ) (k : ℕ × ℕ) (value : LinkAllocation), m.pairs.entries[i]? = some (k, value) →
    IsBlock m.allocator.subnet i value
  le : m.pairs.size ≤ m.allocator.subnet.capacity

theorem allocated_new {subnet : IPv4Network} {m : P2pLinkAllocationMap} (h : new subnet = .ok m) :
    m.Allocated ∧ m.allocator.subnet = subnet ∧ m.pairs = ∅ := by
  rw [new, IPv4Address.add] at h
  by_cases hlt : subnet.networkAddress.toNat + 2 < 2 ^ 32
  · rw [IPv4Address.ofNat_eq_ok hlt] at h
    cases h
    exact ⟨⟨rfl, by intro i k value hi; simp at hi, Nat.zero_le _⟩, rfl, rfl⟩
  · rw [IPv4Address.ofNat_eq_error (Nat.le_of_not_lt hlt)] at h
    cases h

theorem assertPair_of_get? {m : P2pLinkAllocationMap} {a b : ℕ} {value : LinkAllocation}
    (h : m.pairs.get? (pairKey a b) = some value) : m.assertPair a b = .ok ((value, false), m) := by
  rw [assertPair, PairedValuesMap.assertPair_of_get? h]
  rfl

/-- What `assertPair` does on a map that keeps the invariant: it returns a known pair's block, takes
the next block for a new pair, and raises for a new pair when no block is left. -/
theorem assertPair_spec {m : P2pLinkAllocationMap} (hm : m.Allocated) (a b : ℕ) :
    (∃ value, m.pairs.get? (pairKey a b) = some value ∧ m.assertPair a b = .ok ((value, false), m)) ∨
    (pairKey a b ∉ m.pairs.keys ∧ m.pairs.size < m.allocator.subnet.capacity ∧
      ∃ value m', m.assertPair a b = .ok ((value, true), m') ∧ m'.Allocated ∧
        m'.allocator.subnet = m.allocator.subnet ∧ m'.pairs = m.pairs.set (pairKey a b) value) ∨
    (pairKey a b ∉ m.pairs.keys ∧ m.pairs.size = m.allocator.subnet.capacity ∧
      ∃ e, m.assertPair a b = .error e) := by
  cases hget : m.pairs.get? (pairKey a b) with
  | some value => exact .inl ⟨value, rfl, assertPair_of_get? hget⟩
  | none =>
    have hfresh := Dict.get?_eq_none_iff.mp hget
    right
    rcases Nat.lt_or_ge m.pairs.size m.allocator.subnet.capacity with hlt | hge
    · left
      obtain ⟨value, s', hgen, hblock, hsubnet, hat⟩ :=
        LinkAllocator.generateVal_eq_ok hm.atBlock hlt a b
      refine ⟨hfresh, hlt, value, ⟨s', m.pairs.set (pairKey a b) value⟩, ?_, ?_, hsubnet, rfl⟩
      · rw [assertPair, PairedValuesMap.assertPair_of_get?_none hget]
        simp only [bind, StateT.bind, hgen]
        rfl
      · have hentries := Dict.entries_set_of_not_mem value hfresh
        have hsize : (m.pairs.set (pairKey a b) value).size = m.pairs.size + 1 := by
          rw [Dict.size, hentries, List.length_append]; rfl
        refine ⟨?_, ?_, ?_⟩
        · rw [hsize]; exact hat
        · intro i k v hi
          rw [show (⟨s', m.pairs.set (pairKey a b) value⟩ : P2pLinkAllocationMap).allocator.subnet =
            m.allocator.subnet from hsubnet]
          rw [hentries] at hi
          rcases Nat.lt_or_ge i m.pairs.entries.length with hil | hil
          · rw [List.getElem?_append_left hil] at hi
            exact hm.block i k v hi
          · rw [List.getElem?_append_right hil] at hi
            obtain ⟨hzero, heq⟩ := List.getElem?_eq_some_iff.mp hi
            simp only [List.length_singleton] at hzero
            have hi' : i = m.pairs.size := by rw [Dict.size]; omega
            simp only [show i - m.pairs.entries.length = 0 by omega, List.getElem_cons_zero,
              Prod.mk.injEq] at heq
            rw [hi', ← heq.2]
            exact hblock
        · rw [hsize, show (⟨s', m.pairs.set (pairKey a b) value⟩ : P2pLinkAllocationMap).allocator.subnet =
            m.allocator.subnet from hsubnet]
          exact hlt
    · right
      obtain ⟨e, he⟩ := LinkAllocator.generateVal_eq_error hm.atBlock hge a b
      refine ⟨hfresh, le_antisymm hm.le hge, e, ?_⟩
      rw [assertPair, PairedValuesMap.assertPair_of_get?_none hget]
      simp only [bind, StateT.bind, he]
      rfl

theorem Allocated.isBlock {m : P2pLinkAllocationMap} (hm : m.Allocated) {k : ℕ × ℕ}
    {value : LinkAllocation} (h : m.pairs.get? k = some value) :
    ∃ i, IsBlock m.allocator.subnet i value := by
  obtain ⟨i, hi⟩ := List.mem_iff_getElem?.mp (Dict.get?_eq_some_iff.mp h)
  exact ⟨i, hm.block i k value hi⟩

/-- The values the map holds are kept. -/
def Extends (m m' : P2pLinkAllocationMap) : Prop :=
  ∀ k value, m.pairs.get? k = some value → m'.pairs.get? k = some value

theorem Extends.refl (m : P2pLinkAllocationMap) : m.Extends m := fun _ _ h => h

theorem Extends.trans {m₁ m₂ m₃ : P2pLinkAllocationMap} (h : m₁.Extends m₂) (h' : m₂.Extends m₃) :
    m₁.Extends m₃ :=
  fun k value hk => h' k value (h k value hk)

/-- A sequence of requests. -/
def assertPairs (m : P2pLinkAllocationMap) (requests : List (ℕ × ℕ)) : Result P2pLinkAllocationMap :=
  requests.foldlM (fun m r => do let (_, m) ← m.assertPair r.1 r.2; pure m) m

@[simp] theorem assertPairs_nil (m : P2pLinkAllocationMap) : m.assertPairs [] = .ok m := rfl

theorem assertPairs_append (m : P2pLinkAllocationMap) (r₁ r₂ : List (ℕ × ℕ)) :
    m.assertPairs (r₁ ++ r₂) = m.assertPairs r₁ >>= fun m' => m'.assertPairs r₂ :=
  List.foldlM_append

theorem assertPairs_singleton (m : P2pLinkAllocationMap) (a b : ℕ) :
    m.assertPairs [(a, b)] = m.assertPair a b >>= fun x => .ok x.2 := by
  rw [assertPairs, List.foldlM_cons]
  simp only [List.foldlM_nil, bind_pure]
  rfl

/-- The distinct pairs of a sequence of requests. -/
def requestedPairs (requests : List (ℕ × ℕ)) : Finset (ℕ × ℕ) :=
  (requests.map fun r => pairKey r.1 r.2).toFinset

theorem size_eq_card (m : P2pLinkAllocationMap) : m.pairs.size = m.pairs.keys.toFinset.card := by
  rw [List.toFinset_card_of_nodup m.pairs.keys_nodup, Dict.keys, List.length_map, Dict.size]

theorem assertPair_eq_ok {m m' : P2pLinkAllocationMap} (hm : m.Allocated) {a b : ℕ}
    {value : LinkAllocation} {generated : Bool} (h : m.assertPair a b = .ok ((value, generated), m')) :
    m'.Allocated ∧ m.Extends m' ∧ m'.allocator.subnet = m.allocator.subnet ∧
      m'.pairs.get? (pairKey a b) = some value ∧
      m'.pairs.keys.toFinset = insert (pairKey a b) m.pairs.keys.toFinset := by
  rcases assertPair_spec hm a b with ⟨v, hget, hok⟩ | ⟨hfresh, -, v, m₁, hok, hm₁, hsubnet, hpairs⟩ |
    ⟨-, -, e, herr⟩
  · rw [hok] at h
    cases h
    refine ⟨hm, Extends.refl m, rfl, hget, ?_⟩
    rw [Finset.insert_eq_self.mpr]
    exact List.mem_toFinset.mpr (Dict.mem_keys_iff.mpr ⟨_, hget⟩)
  · rw [hok] at h
    cases h
    refine ⟨hm₁, ?_, hsubnet, by rw [hpairs, Dict.get?_set_self], ?_⟩
    · intro k w hk
      have hne : pairKey a b ≠ k := by
        rintro rfl
        exact hfresh (Dict.mem_keys_iff.mpr ⟨w, hk⟩)
      rw [hpairs, Dict.get?_set_ne _ _ hne]
      exact hk
    · ext k
      rw [hpairs, List.mem_toFinset, Dict.mem_keys_set, Finset.mem_insert, List.mem_toFinset]
  · rw [herr] at h
    cases h

/-- A sequence of requests succeeds exactly when the distinct pairs it leaves the map with do not
exceed the capacity of the subnet. -/
theorem assertPairs_spec {m : P2pLinkAllocationMap} (hm : m.Allocated) (requests : List (ℕ × ℕ)) :
    ((m.pairs.keys.toFinset ∪ requestedPairs requests).card ≤ m.allocator.subnet.capacity ∧
      ∃ m', m.assertPairs requests = .ok m') ∨
    (m.allocator.subnet.capacity < (m.pairs.keys.toFinset ∪ requestedPairs requests).card ∧
      ∃ e, m.assertPairs requests = .error e) := by
  induction requests generalizing m with
  | nil =>
    left
    refine ⟨?_, m, rfl⟩
    rw [requestedPairs, List.map_nil, List.toFinset_nil, Finset.union_empty, ← size_eq_card]
    exact hm.le
  | cons r rest ih =>
    have hcons : m.pairs.keys.toFinset ∪ requestedPairs (r :: rest) =
        insert (pairKey r.1 r.2) m.pairs.keys.toFinset ∪ requestedPairs rest := by
      rw [requestedPairs, List.map_cons, List.toFinset_cons, Finset.union_insert, Finset.insert_union]
      rfl
    have hstep : m.assertPairs (r :: rest) =
        (m.assertPair r.1 r.2) >>= fun x => assertPairs x.2 rest := by
      rw [assertPairs, List.foldlM_cons, bind_assoc]
      rfl
    cases hreq : m.assertPair r.1 r.2 with
    | ok x =>
      obtain ⟨⟨value, generated⟩, m₁⟩ := x
      obtain ⟨hm₁, -, hsubnet, -, hkeys⟩ := assertPair_eq_ok hm hreq
      rw [hcons, hstep, hreq, ← hkeys, ← hsubnet]
      exact ih hm₁
    | error e =>
      right
      rcases assertPair_spec hm r.1 r.2 with ⟨_, -, hok⟩ | ⟨-, -, _, _, hok, -⟩ | ⟨hfresh, hfull, -⟩
      · rw [hok] at hreq; cases hreq
      · rw [hok] at hreq; cases hreq
      · refine ⟨?_, e, by rw [hstep, hreq]; rfl⟩
        rw [hcons, ← hfull, size_eq_card, ← Nat.succ_le_iff, Nat.succ_eq_add_one,
          ← Finset.card_insert_of_notMem (mt List.mem_toFinset.mp hfresh)]
        exact Finset.card_le_card Finset.subset_union_left

theorem assertPairs_eq_ok {m m' : P2pLinkAllocationMap} (hm : m.Allocated) {requests : List (ℕ × ℕ)}
    (h : m.assertPairs requests = .ok m') :
    m'.Allocated ∧ m.Extends m' ∧ m'.allocator.subnet = m.allocator.subnet := by
  induction requests generalizing m with
  | nil =>
    cases h
    exact ⟨hm, Extends.refl _, rfl⟩
  | cons r rest ih =>
    rw [assertPairs, List.foldlM_cons, bind_assoc] at h
    cases hreq : m.assertPair r.1 r.2 with
    | ok x =>
      obtain ⟨⟨value, generated⟩, m₁⟩ := x
      obtain ⟨hm₁, hext, hsubnet, -, -⟩ := assertPair_eq_ok hm hreq
      rw [hreq] at h
      obtain ⟨hm', hext', hsubnet'⟩ := ih hm₁ h
      exact ⟨hm', hext.trans hext', hsubnet'.trans hsubnet⟩
    | error e =>
      rw [hreq] at h
      cases h

theorem assertPairs_ok_iff {subnet : IPv4Network} {m : P2pLinkAllocationMap} (hnew : new subnet = .ok m)
    (requests : List (ℕ × ℕ)) :
    (∃ m', m.assertPairs requests = .ok m') ↔ (requestedPairs requests).card ≤ subnet.capacity := by
  obtain ⟨hm, hsubnet, hempty⟩ := allocated_new hnew
  have hspec := assertPairs_spec hm requests
  rw [hempty, hsubnet, Dict.keys_empty, List.toFinset_nil, Finset.empty_union] at hspec
  rcases hspec with ⟨hle, hok⟩ | ⟨hlt, e, herr⟩
  · exact ⟨fun _ => hle, fun _ => hok⟩
  · rw [herr]
    exact ⟨fun ⟨_, h⟩ => (by cases h), fun h => absurd h (Nat.not_le.mpr hlt)⟩

end P2pLinkAllocationMap

end Uno
