import Uno.Deploy.Crossed

/-!
# Placing private peers on a ring

The graph the crossed and circular strategies deploy. Without private peers it is the ring itself
(`PublicRing.ringGraph`). Otherwise the loop over the public peers fills `peer_ports`; its invariant
`Placed` says what the ports of every peer are after `k` public peers: the ring neighbours of the
first `k`, and both directions of the links to the private peers these own (`Owns`). The partition
sizes add up to the number of private peers, so that in the end each of them has an owner.
-/

namespace Uno

open CrossedDeploymentStrategy

/-! ### The ring alone -/

/-- The neighbours of a peer of a ring. -/
def ringPorts (l : List ℕ) (nbrs : ℕ → List ℕ) (a : ℕ) : List ℕ :=
  (nbrs (l.idxOf a)).map fun j => l.getD j 0

namespace PublicRing

variable {g : Generated} {nbrs : ℕ → List ℕ}

theorem idxOf_eq (ring : PublicRing g nbrs) {i a : ℕ} (h : g.peers[i]? = some a) :
    g.peers.idxOf a = i := by
  obtain ⟨hlt, rfl⟩ := List.getElem?_eq_some_iff.mp h
  exact ring.nodup.idxOf_getElem i hlt

theorem ringPorts_eq (ring : PublicRing g nbrs) {i a : ℕ} (h : g.peers[i]? = some a) :
    ringPorts g.peers nbrs a = (nbrs i).map fun j => g.peers.getD j 0 := by
  rw [ringPorts, ring.idxOf_eq h]

theorem getElem?_getD (ring : PublicRing g nbrs) {i j : ℕ} (hi : i < g.peers.length) (hj : j ∈ nbrs i) :
    g.peers[j]? = some (g.peers.getD j 0) := by
  rw [List.getD_eq_getElem?_getD, List.getElem?_eq_getElem (ring.lt i hi j hj)]
  rfl

theorem mem_ringPorts (ring : PublicRing g nbrs) {i a b : ℕ} (h : g.peers[i]? = some a) :
    b ∈ ringPorts g.peers nbrs a ↔ ∃ j ∈ nbrs i, g.peers[j]? = some b := by
  have hi := (List.getElem?_eq_some_iff.mp h).1
  rw [ring.ringPorts_eq h, List.mem_map]
  constructor
  · rintro ⟨j, hj, rfl⟩
    exact ⟨j, hj, ring.getElem?_getD hi hj⟩
  · rintro ⟨j, hj, hb⟩
    rw [ring.getElem?_getD hi hj, Option.some.injEq] at hb
    exact ⟨j, hj, hb⟩

theorem ringPorts_nodup (ring : PublicRing g nbrs) {a : ℕ} (ha : a ∈ g.peers) :
    (ringPorts g.peers nbrs a).Nodup := by
  obtain ⟨i, hi⟩ := List.mem_iff_getElem?.mp ha
  have hlt := (List.getElem?_eq_some_iff.mp hi).1
  rw [ring.ringPorts_eq hi]
  refine (ring.nbrs_nodup i hlt).map_on fun j hj k hk hjk => ?_
  have hjget := ring.getElem?_getD hlt hj
  rw [hjk, ← ring.getElem?_getD hlt hk] at hjget
  have hjlt := ring.lt i hlt j hj
  have hklt := ring.lt i hlt k hk
  exact (ring.nodup.getElem_inj_iff (i := j) (j := k)).mp
    (by simpa [List.getElem?_eq_getElem, hjlt, hklt] using hjget)

theorem ringPorts_symm (ring : PublicRing g nbrs) {a b : ℕ} (ha : a ∈ g.peers)
    (hb : b ∈ ringPorts g.peers nbrs a) : b ∈ g.peers ∧ a ∈ ringPorts g.peers nbrs b := by
  obtain ⟨i, hi⟩ := List.mem_iff_getElem?.mp ha
  obtain ⟨j, hj, hbj⟩ := (ring.mem_ringPorts hi).mp hb
  refine ⟨List.mem_of_getElem? hbj, (ring.mem_ringPorts hbj).mpr ⟨i, ?_, hi⟩⟩
  exact ring.symm i (List.getElem?_eq_some_iff.mp hi).1 j hj

theorem ringPorts_irrefl (ring : PublicRing g nbrs) {a : ℕ} (ha : a ∈ g.peers) :
    a ∉ ringPorts g.peers nbrs a := by
  obtain ⟨i, hi⟩ := List.mem_iff_getElem?.mp ha
  rw [ring.mem_ringPorts hi]
  rintro ⟨j, hj, hja⟩
  have hij : i = j := by rw [← ring.idxOf_eq hi, ring.idxOf_eq hja]
  exact ring.irrefl i (List.getElem?_eq_some_iff.mp hi).1 (hij ▸ hj)

theorem reaches (ring : PublicRing g nbrs) {R : ℕ → ℕ → Prop}
    (hR : ∀ a ∈ g.peers, ∀ b ∈ ringPorts g.peers nbrs a, R a b) {root i a : ℕ}
    (hroot : g.peers[0]? = some root) (hi : g.peers[i]? = some a) : Relation.ReflTransGen R root a := by
  induction i generalizing a with
  | zero =>
    rw [hroot, Option.some.injEq] at hi
    rw [hi]
  | succ i ih =>
    have hlt := (List.getElem?_eq_some_iff.mp hi).1
    have hprev := List.getElem?_eq_getElem (l := g.peers) (i := i) (by omega)
    refine (ih hprev).tail (hR _ (List.mem_of_getElem? hprev) _ ?_)
    exact (ring.mem_ringPorts hprev).mpr ⟨i + 1, ring.next i hlt, hi⟩

variable {peers : Finset ℕ}

/-- The graph of a ring of public peers. -/
def ringGraph (ring : PublicRing g nbrs) (hpos : 0 < g.peers.length)
    (hmem : ∀ a, a ∈ g.peers ↔ a ∈ peers) : DeploymentGraph peers ∅ :=
  DeploymentGraph.ofPorts g.peers (ringPorts g.peers nbrs) ring.nodup hmem
    (fun _ ha => ring.ringPorts_nodup ha) (fun _ ha _ hb => ring.ringPorts_symm ha hb)
    (fun _ ha => ring.ringPorts_irrefl ha) (fun _ _ _ _ => .inl (Finset.notMem_empty _))
    g.peers[0] (fun a ha => by
      obtain ⟨i, hi⟩ := List.mem_iff_getElem?.mp ha
      exact ring.reaches (fun a ha b hb => ⟨ha, hb⟩) (List.getElem?_eq_getElem hpos) hi)

theorem realizes_ringGraph (ring : PublicRing g nbrs) (hpos : 0 < g.peers.length)
    (hmem : ∀ a, a ∈ g.peers ↔ a ∈ peers) : g.Realizes (ring.ringGraph hpos hmem).adj := by
  have hentry : ∀ (n a : ℕ) (ns : List ℕ), (ring.ringGraph hpos hmem).adj[n]? = some (a, ns) →
      g.peers[n]? = some a ∧ ns = (nbrs n).map fun j => g.peers.getD j 0 := by
    intro n a ns hn
    change (g.peers.map fun p => (p, ringPorts g.peers nbrs p))[n]? = _ at hn
    rw [List.getElem?_map, Option.map_eq_some_iff] at hn
    obtain ⟨p, hp, heq⟩ := hn
    obtain ⟨rfl, rfl⟩ := Prod.mk.inj heq
    exact ⟨hp, ring.ringPorts_eq hp⟩
  refine ⟨?_, ?_, ?_⟩
  · change g.peers = (g.peers.map fun p => (p, ringPorts g.peers nbrs p)).map Prod.fst
    simp [Function.comp_def]
  · intro n a ns hn
    obtain ⟨ha, rfl⟩ := hentry n a ns hn
    rw [List.length_map]
    exact ring.peersCount n (List.getElem?_eq_some_iff.mp ha).1
  · intro n a ns i b hn hi
    obtain ⟨ha, rfl⟩ := hentry n a ns hn
    have hlt := (List.getElem?_eq_some_iff.mp ha).1
    rw [List.getElem?_map, Option.map_eq_some_iff] at hi
    obtain ⟨j, hj, rfl⟩ := hi
    obtain ⟨connection, hconnection, hval⟩ := ring.connections n hlt i j hj
    exact ⟨connection, j, hconnection, hval, ring.getElem?_getD hlt (List.mem_of_getElem? hj)⟩

end PublicRing

/-! ### Sets of ports -/

namespace CrossedDeploymentStrategy

theorem mem_portsOf_set {d : Dict ℕ (Finset ℕ)} {a x y : ℕ} :
    y ∈ portsOf (d.set a (portsOf d a)) x ↔ y ∈ portsOf d x := by
  by_cases h : a = x
  · subst h; simp [portsOf]
  · simp [portsOf, Dict.get?_set_ne _ _ h]

theorem mem_portsOf_addPort {d : Dict ℕ (Finset ℕ)} {a b x y : ℕ} :
    y ∈ portsOf (addPort d a b) x ↔ (x = a ∧ y = b) ∨ y ∈ portsOf d x := by
  by_cases h : a = x
  · subst h; simp [portsOf, addPort]
  · simp [portsOf, addPort, Dict.get?_set_ne _ _ h, Ne.symm h]

theorem mem_keys_addPort {d : Dict ℕ (Finset ℕ)} {a b x : ℕ} :
    x ∈ (addPort d a b).keys ↔ x = a ∨ x ∈ d.keys :=
  Dict.mem_keys_set

theorem mem_foldl_addPort {l : List ℕ} {f : ℕ → ℕ} {d : Dict ℕ (Finset ℕ)} {a x y : ℕ} :
    y ∈ portsOf (l.foldl (fun d j => addPort d a (f j)) d) x ↔
      (x = a ∧ ∃ j ∈ l, f j = y) ∨ y ∈ portsOf d x := by
  induction l generalizing d with
  | nil => simp
  | cons b rest ih =>
    rw [List.foldl_cons, ih, mem_portsOf_addPort]
    simp only [List.mem_cons, exists_eq_or_imp, eq_comm (a := y), and_or_left]
    rw [or_left_comm, or_assoc]

theorem mem_keys_foldl_addPort {l : List ℕ} {f : ℕ → ℕ} {d : Dict ℕ (Finset ℕ)} {a x : ℕ}
    (ha : a ∈ d.keys) : x ∈ (l.foldl (fun d j => addPort d a (f j)) d).keys ↔ x ∈ d.keys := by
  induction l generalizing d with
  | nil => simp
  | cons b rest ih =>
    rw [List.foldl_cons, ih (mem_keys_addPort.mpr (.inr ha)), mem_keys_addPort]
    constructor
    · rintro (rfl | hx)
      · exact ha
      · exact hx
    · exact .inr

theorem mem_foldl_link {l : List ℕ} {d : Dict ℕ (Finset ℕ)} {a x y : ℕ} :
    y ∈ portsOf (l.foldl (fun d b => addPort (addPort d a b) b a) d) x ↔
      (x = a ∧ y ∈ l) ∨ (y = a ∧ x ∈ l) ∨ y ∈ portsOf d x := by
  induction l generalizing d with
  | nil => simp
  | cons b rest ih =>
    rw [List.foldl_cons, ih, mem_portsOf_addPort, mem_portsOf_addPort]
    simp only [List.mem_cons]
    tauto

theorem mem_keys_foldl_link {l : List ℕ} {d : Dict ℕ (Finset ℕ)} {a x : ℕ} (ha : a ∈ d.keys) :
    x ∈ (l.foldl (fun d b => addPort (addPort d a b) b a) d).keys ↔ x ∈ l ∨ x ∈ d.keys := by
  induction l generalizing d with
  | nil => simp
  | cons b rest ih =>
    have ha' : a ∈ (addPort (addPort d a b) b a).keys :=
      mem_keys_addPort.mpr (.inr (mem_keys_addPort.mpr (.inl rfl)))
    rw [List.foldl_cons, ih ha', mem_keys_addPort, mem_keys_addPort, List.mem_cons]
    constructor
    · rintro (hx | rfl | rfl | hx)
      · exact .inl (.inr hx)
      · exact .inl (.inl rfl)
      · exact .inr ha
      · exact .inr hx
    · rintro ((rfl | hx) | hx)
      · exact .inr (.inl rfl)
      · exact .inl hx
      · exact .inr (.inr (.inr hx))

/-! ### The loop -/

section placement

variable {pub : Generated} {nbrs : ℕ → List ℕ} {priv sizes : List ℕ}

/-- Ports towards public peers: those of the ring, unless there is one public peer only. -/
def publicPorts (pub : Generated) (nbrs : ℕ → List ℕ) (a : ℕ) : List ℕ :=
  if pub.peers.length > 1 then ringPorts pub.peers nbrs a else []

/-- The private peers of the public peer at index `j`. -/
def slice (sizes priv : List ℕ) (j : ℕ) : List ℕ :=
  (priv.drop (sizes.take j).sum).take (sizes.getD j 0)

/-- One of the first `k` public peers, `a`, is given the private peer `b`. -/
def Owns (pub : Generated) (sizes priv : List ℕ) (k a b : ℕ) : Prop :=
  ∃ j < k, pub.peers[j]? = some a ∧ b ∈ slice sizes priv j

theorem owns_succ {k a : ℕ} (hk : pub.peers[k]? = some a) (x y : ℕ) :
    Owns pub sizes priv (k + 1) x y ↔
      Owns pub sizes priv k x y ∨ (x = a ∧ y ∈ slice sizes priv k) := by
  simp only [Owns, Nat.lt_succ_iff_lt_or_eq]
  constructor
  · rintro ⟨j, hj | rfl, hx, hy⟩
    · exact .inl ⟨j, hj, hx, hy⟩
    · rw [hk, Option.some.injEq] at hx
      exact .inr ⟨hx.symm, hy⟩
  · rintro (⟨j, hj, hx, hy⟩ | ⟨rfl, hy⟩)
    · exact ⟨j, .inl hj, hx, hy⟩
    · exact ⟨k, .inr rfl, hk, hy⟩

theorem Owns.mem {k x y : ℕ} (h : Owns pub sizes priv k x y) : x ∈ pub.peers ∧ y ∈ priv := by
  obtain ⟨j, -, hx, hy⟩ := h
  exact ⟨List.mem_of_getElem? hx, List.mem_of_mem_drop (List.mem_of_mem_take hy)⟩

theorem exists_owns {k y : ℕ} (hk : k ≤ pub.peers.length) (hsizes : sizes.length = pub.peers.length)
    (hy : y ∈ priv.take (sizes.take k).sum) : ∃ x, Owns pub sizes priv k x y := by
  induction k with
  | zero => simp at hy
  | succ k ih =>
    have hsum : (sizes.take (k + 1)).sum = (sizes.take k).sum + sizes.getD k 0 := by
      rw [List.take_add_one, List.sum_append, List.getD_eq_getElem?_getD,
        List.getElem?_eq_getElem (by omega)]
      simp
    have hget := List.getElem?_eq_getElem (l := pub.peers) (i := k) (by omega)
    rw [hsum, List.take_add, List.mem_append] at hy
    rcases hy with hy | hy
    · obtain ⟨x, hx⟩ := ih (by omega) hy
      exact ⟨x, (owns_succ hget x y).mpr (.inl hx)⟩
    · exact ⟨_, (owns_succ hget _ y).mpr (.inr ⟨rfl, hy⟩)⟩

/-- The invariant of the loop, after `k` public peers. -/
structure Placed (pub : Generated) (nbrs : ℕ → List ℕ) (sizes priv : List ℕ) (k : ℕ)
    (acc : ℕ × Dict ℕ (Finset ℕ)) : Prop where
  privI : acc.1 = (sizes.take k).sum
  keys : ∀ x, x ∈ acc.2.keys ↔ x ∈ pub.peers.take k ∨ ∃ a, Owns pub sizes priv k a x
  ports : ∀ x y, y ∈ portsOf acc.2 x ↔ (x ∈ pub.peers.take k ∧ y ∈ publicPorts pub nbrs x) ∨
    Owns pub sizes priv k x y ∨ Owns pub sizes priv k y x

theorem mapM_connections (ring : PublicRing pub nbrs) {i : ℕ} (hi : i < pub.peers.length) :
    ((List.range (nbrs i).length).mapM fun portI => do
      let connection ← pyIndex pub.connections portI
      connection i : Result (List (Option ℕ))) = .ok ((nbrs i).map some) := by
  have hmap : (nbrs i).map some = (List.range (nbrs i).length).map fun p => (nbrs i)[p]? := by
    apply List.ext_getElem?
    intro p
    rcases Nat.lt_or_ge p (nbrs i).length with hp | hp
    · simp [List.getElem?_range hp, List.getElem?_eq_getElem hp]
    · rw [List.getElem?_eq_none (by simpa using hp), List.getElem?_eq_none (by simpa using hp)]
  rw [hmap]
  refine Fold.mapM_eq_ok fun p hp => ?_
  have hp := List.getElem?_eq_getElem (List.mem_range.mp hp)
  obtain ⟨connection, hconnection, hval⟩ := ring.connections i hi p _ hp
  simp only [pyIndex_eq_ok hconnection, bind, Except.bind, hval, hp]

theorem addPublicPorts_eq (ring : PublicRing pub nbrs) {i : ℕ} (hi : i < pub.peers.length)
    (priv : List ℕ) (a : ℕ) (ports : Dict ℕ (Finset ℕ)) :
    addPublicPorts pub (pub.peers ++ priv) a i ports =
      .ok ((nbrs i).foldl (fun ports j => addPort ports a (pub.peers.getD j 0)) ports) := by
  obtain ⟨hpos, hle⟩ := ring.length i hi
  have hfold : (nbrs i).foldlM (fun ports peerI => do
      let peer ← pyIndex (pub.peers ++ priv) peerI
      .ok (addPort ports a peer) : Dict ℕ (Finset ℕ) → ℕ → Result _) ports =
      .ok ((nbrs i).foldl (fun ports j => addPort ports a (pub.peers.getD j 0)) ports) := by
    refine Fold.foldlM_eq_ok (fun ports j hj => ?_) ports
    have hget : (pub.peers ++ priv)[j]? = some (pub.peers.getD j 0) := by
      rw [List.getElem?_append_left (ring.lt i hi j hj), ring.getElem?_getD hi hj]
    rw [pyIndex_eq_ok hget]
    rfl
  have hsome : ((nbrs i).map some).reduceOption = nbrs i := by
    rw [List.reduceOption, List.filterMap_map]
    exact List.filterMap_some
  rw [addPublicPorts, ring.peersCount i hi]
  simp only [Except.ok_bind, gt_iff_lt, hpos, hle, decide_true, pyAssert_true, mapM_connections ring hi,
    hsome]
  exact hfold

theorem placePeer_spec (ring : pub.peers.length > 1 → PublicRing pub nbrs)
    (hsizes : sizes.length = pub.peers.length) {k a : ℕ} {acc : ℕ × Dict ℕ (Finset ℕ)}
    (hk : pub.peers[k]? = some a) (hacc : Placed pub nbrs sizes priv k acc) :
    ∃ acc', placePeer pub (pub.peers ++ priv) sizes pub.peers.length acc (a, k) = .ok acc' ∧
      Placed pub nbrs sizes priv (k + 1) acc' := by
  have hlt := (List.getElem?_eq_some_iff.mp hk).1
  obtain ⟨size, hsize⟩ : ∃ size, sizes[k]? = some size :=
    ⟨_, List.getElem?_eq_getElem (by omega)⟩
  have hslice : ((pub.peers ++ priv).drop (pub.peers.length + acc.1)).take size = slice sizes priv k := by
    rw [slice, List.getD_eq_getElem?_getD, hsize, hacc.privI, List.drop_append, List.drop_of_length_le
      (by omega), List.nil_append, Nat.add_sub_cancel_left]
    rfl
  -- the ports after the links to public peers
  obtain ⟨ports, hports, hmem, hkeys⟩ : ∃ ports,
      (if pub.peers.length > 1 then
        addPublicPorts pub (pub.peers ++ priv) a k (acc.2.set a (portsOf acc.2 a))
      else .ok (acc.2.set a (portsOf acc.2 a))) = .ok ports ∧
      (∀ x y, y ∈ portsOf ports x ↔ (x = a ∧ y ∈ publicPorts pub nbrs a) ∨ y ∈ portsOf acc.2 x) ∧
      (∀ x, x ∈ ports.keys ↔ x = a ∨ x ∈ acc.2.keys) := by
    by_cases hmany : pub.peers.length > 1
    · refine ⟨_, by rw [if_pos hmany, addPublicPorts_eq (ring hmany) hlt], fun x y => ?_, fun x => ?_⟩
      · rw [mem_foldl_addPort, mem_portsOf_set, publicPorts, if_pos hmany,
          (ring hmany).ringPorts_eq hk, List.mem_map]
      · rw [mem_keys_foldl_addPort (Dict.mem_keys_set.mpr (.inl rfl)), Dict.mem_keys_set]
    · refine ⟨_, by rw [if_neg hmany], fun x y => ?_, fun x => ?_⟩
      · rw [mem_portsOf_set, publicPorts, if_neg hmany]
        simp
      · rw [Dict.mem_keys_set]
  have htake : ∀ x, x ∈ pub.peers.take (k + 1) ↔ x = a ∨ x ∈ pub.peers.take k := by
    intro x
    rw [List.take_add_one, hk, List.mem_append]
    simp [or_comm]
  refine ⟨(acc.1 + size, (slice sizes priv k).foldl (fun d b => addPort (addPort d a b) b a) ports),
    ?_, ?_, ?_, ?_⟩
  · rw [placePeer, pyIndex_eq_ok hsize]
    simp only [Except.ok_bind, hports, hslice]
  · rw [List.take_add_one, hsize, hacc.privI]
    simp
  · intro x
    rw [mem_keys_foldl_link ((hkeys a).mpr (.inl rfl)), hkeys, hacc.keys, htake]
    simp only [owns_succ hk, exists_or]
    constructor
    · rintro (hx | rfl | hx | hx)
      · exact .inr (.inr ⟨a, rfl, hx⟩)
      · exact .inl (.inl rfl)
      · exact .inl (.inr hx)
      · exact .inr (.inl hx)
    · rintro ((rfl | hx) | hx | ⟨b, -, hx⟩)
      · exact .inr (.inl rfl)
      · exact .inr (.inr (.inl hx))
      · exact .inr (.inr (.inr hx))
      · exact .inl hx
  · intro x y
    rw [mem_foldl_link, hmem, hacc.ports, htake, owns_succ hk, owns_succ hk]
    constructor
    · rintro (hx | hx | ⟨rfl, hy⟩ | ⟨hx, hy⟩ | hx | hx)
      · exact .inr (.inl (.inr hx))
      · exact .inr (.inr (.inr hx))
      · exact .inl ⟨.inl rfl, hy⟩
      · exact .inl ⟨.inr hx, hy⟩
      · exact .inr (.inl (.inl hx))
      · exact .inr (.inr (.inl hx))
    · rintro (⟨rfl | hx, hy⟩ | (hx | hx) | hx | hx)
      · exact .inr (.inr (.inl ⟨rfl, hy⟩))
      · exact .inr (.inr (.inr (.inl ⟨hx, hy⟩)))
      · exact .inr (.inr (.inr (.inr (.inl hx))))
      · exact .inl hx
      · exact .inr (.inr (.inr (.inr (.inr hx))))
      · exact .inr (.inl hx)

theorem placeAll_spec (priv : List ℕ) (ring : pub.peers.length > 1 → PublicRing pub nbrs)
    (hsizes : sizes.length = pub.peers.length) :
    ∃ acc, pub.peers.zipIdx.foldlM (placePeer pub (pub.peers ++ priv) sizes pub.peers.length) (0, ∅) =
      .ok acc ∧ Placed pub nbrs sizes priv pub.peers.length acc := by
  refine Fold.foldlM_zipIdx_total (fun k a acc hk hacc => placePeer_spec ring hsizes hk hacc) ⟨?_, ?_, ?_⟩
  · rfl
  · simp [Owns]
  · simp [Owns, portsOf]

theorem length_privPartitionSizes {q p : ℕ} (hp : 0 < p) : (privPartitionSizes q p).length = p := by
  have hmod := Nat.mod_lt q hp
  simp only [privPartitionSizes]
  split_ifs <;> simp only [List.length_append, List.length_replicate] <;> omega

theorem sum_privPartitionSizes {q p : ℕ} (hp : 0 < p) : (privPartitionSizes q p).sum = q := by
  have hmod := Nat.mod_lt q hp
  simp only [privPartitionSizes]
  split_ifs
  · simp only [List.sum_append, List.sum_replicate, nsmul_eq_mul, Nat.cast_id]
    calc q % p * (q / p + 1) + (p - q % p) * (q / p)
        = (q % p + (p - q % p)) * (q / p) + q % p := by ring
      _ = p * (q / p) + q % p := by rw [Nat.add_sub_cancel' hmod.le]
      _ = q := Nat.div_add_mod q p
  · simp

/-! ### The graph -/

variable {peers privatePeers : Finset ℕ} {acc : ℕ × Dict ℕ (Finset ℕ)}

/-- Public peers with their ring and private peers with their owners: the ports the loop leaves. -/
structure Placement (pub : Generated) (nbrs : ℕ → List ℕ) (sizes priv : List ℕ)
    (peers privatePeers : Finset ℕ) : Prop where
  ring : pub.peers.length > 1 → PublicRing pub nbrs
  nonempty : 0 < pub.peers.length
  public_nodup : pub.peers.Nodup
  private_nodup : priv.Nodup
  sizes_length : sizes.length = pub.peers.length
  sizes_sum : sizes.sum = priv.length
  mem_public : ∀ a, a ∈ pub.peers ↔ a ∈ peers \ privatePeers
  mem_private : ∀ a, a ∈ priv ↔ a ∈ privatePeers
  subset : privatePeers ⊆ peers

namespace Placement

theorem disjoint (h : Placement pub nbrs sizes priv peers privatePeers) {a : ℕ} (ha : a ∈ pub.peers)
    (hb : a ∈ priv) : False := by
  rw [h.mem_public, Finset.mem_sdiff] at ha
  exact ha.2 ((h.mem_private a).mp hb)

theorem mem_publicPorts (h : Placement pub nbrs sizes priv peers privatePeers) {a b : ℕ}
    (ha : a ∈ pub.peers) (hb : b ∈ publicPorts pub nbrs a) :
    b ∈ pub.peers ∧ a ∈ publicPorts pub nbrs b ∧ a ≠ b := by
  rw [publicPorts] at hb ⊢
  split_ifs at hb ⊢ with hmany
  · obtain ⟨hmem, hsymm⟩ := (h.ring hmany).ringPorts_symm ha hb
    refine ⟨hmem, hsymm, ?_⟩
    rintro rfl
    exact (h.ring hmany).ringPorts_irrefl ha hb
  · simp at hb

theorem ports_iff (hacc : Placed pub nbrs sizes priv pub.peers.length acc) (a b : ℕ) :
    b ∈ portsOf acc.2 a ↔ (a ∈ pub.peers ∧ b ∈ publicPorts pub nbrs a) ∨
      Owns pub sizes priv pub.peers.length a b ∨ Owns pub sizes priv pub.peers.length b a := by
  rw [hacc.ports, List.take_length]

theorem exists_owner (h : Placement pub nbrs sizes priv peers privatePeers) {b : ℕ} (hb : b ∈ priv) :
    ∃ a, Owns pub sizes priv pub.peers.length a b := by
  refine exists_owns le_rfl h.sizes_length ?_
  rwa [← h.sizes_length, List.take_length, h.sizes_sum, List.take_length]

theorem ports_symm (h : Placement pub nbrs sizes priv peers privatePeers)
    (hacc : Placed pub nbrs sizes priv pub.peers.length acc) {a b : ℕ} (hb : b ∈ portsOf acc.2 a) :
    b ∈ pub.peers ++ priv ∧ a ∈ portsOf acc.2 b := by
  rw [ports_iff hacc] at hb ⊢
  rw [List.mem_append]
  rcases hb with ⟨ha, hb⟩ | hown | hown
  · obtain ⟨hmem, hsymm, -⟩ := h.mem_publicPorts ha hb
    exact ⟨.inl hmem, .inl ⟨hmem, hsymm⟩⟩
  · exact ⟨.inr hown.mem.2, .inr (.inr hown)⟩
  · exact ⟨.inl hown.mem.1, .inr (.inl hown)⟩

theorem ports_irrefl (h : Placement pub nbrs sizes priv peers privatePeers)
    (hacc : Placed pub nbrs sizes priv pub.peers.length acc) (a : ℕ) : a ∉ portsOf acc.2 a := by
  rw [ports_iff hacc]
  rintro (⟨ha, hb⟩ | hown | hown)
  · exact (h.mem_publicPorts ha hb).2.2 rfl
  · exact h.disjoint hown.mem.1 hown.mem.2
  · exact h.disjoint hown.mem.1 hown.mem.2

theorem not_mem_private (h : Placement pub nbrs sizes priv peers privatePeers) {a : ℕ}
    (ha : a ∈ pub.peers) : a ∉ privatePeers := fun hb => h.disjoint ha ((h.mem_private a).mpr hb)

theorem ports_not_private (h : Placement pub nbrs sizes priv peers privatePeers)
    (hacc : Placed pub nbrs sizes priv pub.peers.length acc) {a b : ℕ} (hb : b ∈ portsOf acc.2 a) :
    a ∉ privatePeers ∨ b ∉ privatePeers := by
  rw [ports_iff hacc] at hb
  rcases hb with ⟨ha, -⟩ | hown | hown
  · exact .inl (h.not_mem_private ha)
  · exact .inl (h.not_mem_private hown.mem.1)
  · exact .inr (h.not_mem_private hown.mem.1)

theorem ports_reach (h : Placement pub nbrs sizes priv peers privatePeers)
    (hacc : Placed pub nbrs sizes priv pub.peers.length acc) {a : ℕ} (ha : a ∈ pub.peers ++ priv) :
    Relation.ReflTransGen (fun x y => x ∈ pub.peers ++ priv ∧ y ∈ portsOf acc.2 x)
      (pub.peers.getD 0 0) a := by
  have hroot : pub.peers[0]? = some (pub.peers.getD 0 0) := by
    rw [List.getD_eq_getElem?_getD, List.getElem?_eq_getElem h.nonempty]
    rfl
  have hpublic : ∀ a ∈ pub.peers, Relation.ReflTransGen
      (fun x y => x ∈ pub.peers ++ priv ∧ y ∈ portsOf acc.2 x) (pub.peers.getD 0 0) a := by
    intro a ha
    obtain ⟨i, hi⟩ := List.mem_iff_getElem?.mp ha
    by_cases hmany : pub.peers.length > 1
    · refine (h.ring hmany).reaches (fun x hx y hy => ⟨List.mem_append_left _ hx, ?_⟩) hroot hi
      rw [ports_iff hacc, publicPorts, if_pos hmany]
      exact .inl ⟨hx, hy⟩
    · have hlt := (List.getElem?_eq_some_iff.mp hi).1
      obtain rfl : i = 0 := by omega
      rw [hroot, Option.some.injEq] at hi
      rw [hi]
  rcases List.mem_append.mp ha with hpub | hpriv
  · exact hpublic a hpub
  · obtain ⟨b, hown⟩ := h.exists_owner hpriv
    refine (hpublic b hown.mem.1).tail ⟨List.mem_append_left _ hown.mem.1, ?_⟩
    rw [ports_iff hacc]
    exact .inr (.inl hown)

/-- The graph of the ports, each set of them in the order it is iterated over. -/
def graph (h : Placement pub nbrs sizes priv peers privatePeers)
    (hacc : Placed pub nbrs sizes priv pub.peers.length acc) (o : Orders) :
    DeploymentGraph peers privatePeers :=
  DeploymentGraph.ofPorts (pub.peers ++ priv) (fun p => (o.ports p).list (portsOf acc.2 p))
    (h.public_nodup.append h.private_nodup fun _ ha hb => h.disjoint ha hb)
    (fun a => by
      rw [List.mem_append, h.mem_public, h.mem_private, Finset.mem_sdiff]
      constructor
      · rintro (⟨ha, -⟩ | ha)
        · exact ha
        · exact h.subset ha
      · intro ha
        by_cases hpriv : a ∈ privatePeers
        · exact .inr hpriv
        · exact .inl ⟨ha, hpriv⟩)
    (fun a _ => (o.ports a).nodup _)
    (fun a _ b hb => by
      rw [SetOrder.mem_iff] at hb ⊢
      exact h.ports_symm hacc hb)
    (fun a _ => by
      rw [SetOrder.mem_iff]
      exact h.ports_irrefl hacc a)
    (fun a _ b hb => by
      rw [SetOrder.mem_iff] at hb
      exact h.ports_not_private hacc hb)
    (pub.peers.getD 0 0)
    (fun a ha => by
      simp only [SetOrder.mem_iff]
      exact h.ports_reach hacc ha)

end Placement

end placement

/-! ### `_generate_deployment` -/

theorem generatePublic_eq_ok (o : Orders) {allPublic : Finset ℕ → Generated} {nbrs : ℕ → List ℕ}
    {publicPeers : Finset ℕ} (hpub : publicPeers.Nonempty)
    (hring : 2 ≤ publicPeers.card → PublicRing (allPublic publicPeers) nbrs)
    (hmem : ∀ s a, a ∈ (allPublic s).peers ↔ a ∈ s) :
    ∃ pub, generatePublic o allPublic publicPeers = .ok pub ∧ (∀ a, a ∈ pub.peers ↔ a ∈ publicPeers) ∧
      pub.peers.Nodup ∧ (publicPeers.card > 1 → PublicRing pub nbrs) := by
  rw [generatePublic]
  by_cases hmany : publicPeers.card > 1
  · exact ⟨_, if_pos hmany, hmem _, (hring hmany).nodup, fun _ => hring hmany⟩
  · have hlen := o.sets.length publicPeers
    have hcard := hpub.card_pos
    rw [if_neg hmany]
    match hlist : o.sets.list publicPeers with
    | [] =>
      rw [hlist, List.length_nil] at hlen
      omega
    | peer :: rest =>
      rw [hlist, List.length_cons] at hlen
      have hrest : rest = [] := List.eq_nil_of_length_eq_zero (by omega)
      refine ⟨_, rfl, fun a => ?_, List.nodup_singleton _, fun h => absurd h hmany⟩
      rw [← o.sets.mem_iff, hlist, hrest]

/-- With a ring of the public peers, the strategy generates a well-formed graph: that of the ports of the ring and of
the private peers that its peers own. -/
theorem generateDeployment_placement (o : Orders) {allPublic : Finset ℕ → Generated}
    {nbrs : ℕ → List ℕ} {peers privatePeers : Finset ℕ} (hsub : privatePeers ⊆ peers)
    (hpub : (peers \ privatePeers).Nonempty)
    (hring : 2 ≤ (peers \ privatePeers).card → PublicRing (allPublic (peers \ privatePeers)) nbrs)
    (hmem : ∀ s a, a ∈ (allPublic s).peers ↔ a ∈ s) :
    ∃ (g pub : Generated) (graph : DeploymentGraph peers privatePeers),
      generateDeployment o allPublic peers privatePeers = .ok g ∧ g.Realizes graph.adj ∧
      Placement pub nbrs (privPartitionSizes privatePeers.card (peers \ privatePeers).card)
        (o.shuffled privatePeers) peers privatePeers ∧
      ∀ a b, Lists graph.adj a b ↔ (a ∈ pub.peers ∧ b ∈ publicPorts pub nbrs a) ∨
        Owns pub (privPartitionSizes privatePeers.card (peers \ privatePeers).card) (o.shuffled privatePeers)
          pub.peers.length a b ∨
        Owns pub (privPartitionSizes privatePeers.card (peers \ privatePeers).card) (o.shuffled privatePeers)
          pub.peers.length b a := by
  obtain ⟨pub, hstart, hmempub, hnodup, hmany⟩ := generatePublic_eq_ok o hpub hring hmem
  have hlen : pub.peers.length = (peers \ privatePeers).card := by
    rw [← List.toFinset_card_of_nodup hnodup]
    congr 1
    ext a
    rw [List.mem_toFinset, hmempub]
  have hpos : 0 < pub.peers.length := hlen ▸ hpub.card_pos
  have hplacement : Placement pub nbrs (privPartitionSizes privatePeers.card (peers \ privatePeers).card)
      (o.shuffled privatePeers) peers privatePeers :=
    { ring := fun h => hmany (hlen ▸ h)
      nonempty := hpos
      public_nodup := hnodup
      private_nodup := o.shuffled_nodup _
      sizes_length := by rw [length_privPartitionSizes hpub.card_pos, hlen]
      sizes_sum := by rw [sum_privPartitionSizes hpub.card_pos, o.length_shuffled]
      mem_public := hmempub
      mem_private := o.mem_shuffled _
      subset := hsub }
  rw [generateDeployment, hstart]
  simp only [Except.ok_bind]
  split_ifs with hall
  · obtain ⟨hcard, rfl⟩ := hall
    refine ⟨pub, pub, (hmany hcard).ringGraph hpos fun a => ?_, rfl, (hmany hcard).realizes_ringGraph hpos _,
      hplacement, fun a b => ?_⟩
    · rw [hmempub, Finset.sdiff_empty]
    · have hnone : ∀ a b, ¬ Owns pub (privPartitionSizes (∅ : Finset ℕ).card (peers \ ∅).card) (o.shuffled ∅)
          pub.peers.length a b := fun a b h => Finset.notMem_empty b ((o.mem_shuffled ∅ b).mp h.mem.2)
      rw [publicPorts, if_pos (hlen ▸ hcard), or_iff_left (not_or.mpr ⟨hnone a b, hnone b a⟩)]
      exact lists_map_iff
  · obtain ⟨acc, hfold, hacc⟩ := placeAll_spec (o.shuffled privatePeers) hplacement.ring
      hplacement.sizes_length
    have htake : (pub.peers ++ o.shuffled privatePeers).take (peers \ privatePeers).card = pub.peers := by
      rw [← hlen, List.take_left]
    have hstatic : (pub.peers ++ o.shuffled privatePeers).mapM (staticPeer o acc.2) =
        .ok (hplacement.graph hacc o).adj := by
      refine Fold.mapM_eq_ok fun peer hpeer => ?_
      have hkey : peer ∈ acc.2.keys := by
        rw [hacc.keys, List.take_length]
        rcases List.mem_append.mp hpeer with h | h
        · exact .inl h
        · exact .inr (hplacement.exists_owner h)
      obtain ⟨ports, hports⟩ := Dict.mem_keys_iff.mp hkey
      simp only [staticPeer, hports, portsOf, Option.getD_some]
    refine ⟨_, pub, hplacement.graph hacc o, ?_, StaticDeploymentStrategy.realizes ?_, hplacement, fun a b => ?_⟩
    · rw [hlen] at hfold
      rw [htake, hfold]
      simp only [Except.ok_bind, hstatic]
    · intro a ns b hmem hb
      have hlists : Lists (hplacement.graph hacc o).adj a b := ⟨ns, hmem, hb⟩
      obtain ⟨ns', hmem', -⟩ := (hplacement.graph hacc o).symm a b hlists
      exact List.mem_map_of_mem (f := Prod.fst) hmem'
    · rw [← Placement.ports_iff hacc, ← (o.ports a).mem_iff]
      refine lists_map_iff.trans (and_iff_right_of_imp fun hb => ?_)
      rw [SetOrder.mem_iff] at hb
      exact (hplacement.ports_symm hacc (hplacement.ports_symm hacc hb).2).1

theorem generateDeployment_realizes (o : Orders) {allPublic : Finset ℕ → Generated}
    {nbrs : ℕ → List ℕ} {peers privatePeers : Finset ℕ} (hsub : privatePeers ⊆ peers)
    (hpub : (peers \ privatePeers).Nonempty)
    (hring : 2 ≤ (peers \ privatePeers).card → PublicRing (allPublic (peers \ privatePeers)) nbrs)
    (hmem : ∀ s a, a ∈ (allPublic s).peers ↔ a ∈ s) :
    ∃ (g : Generated) (graph : DeploymentGraph peers privatePeers),
      generateDeployment o allPublic peers privatePeers = .ok g ∧ g.Realizes graph.adj := by
  obtain ⟨g, -, graph, hg, hreal, -⟩ := generateDeployment_placement o hsub hpub hring hmem
  exact ⟨g, graph, hg, hreal⟩

end CrossedDeploymentStrategy

end Uno
