import Uno.Deploy.Deployments
import Mathlib.Algebra.BigOperators.Group.Finset.Basic
import Mathlib.Data.Set.Card

/-!
# The shape of crossed and circular deployments

The public peers of both strategies lie on a circle (`OnCircle`), and those of the crossed one are also linked to the
peer across it (`AcrossCircle`). The private peers are divided evenly between them (`Divided`): the loop gives each
public peer a slice of the private ones, and the slices are disjoint. A deployment without public peers is empty
(`deployment_shape`).
-/

namespace Uno

open CrossedDeploymentStrategy

/-! ### The shape -/

/-- The peers lie on a circle, each linked to those to its left and its right, and to the one across if there is one. -/
def OnCircle (ring : List ℕ) (across : ℕ → Option ℕ) (L : ℕ → ℕ → Prop) : Prop :=
  ∀ i j a b, ring[i]? = some a → ring[j]? = some b →
    (L a b ↔ i ≠ j ∧ (j = leftIndex ring.length i ∨ j = rightIndex ring.length i ∨ across i = some j))

/-- The indices across a circle of `n` peers. -/
structure AcrossCircle (n : ℕ) (across : ℕ → Option ℕ) : Prop where
  distinct : ∀ i < n, ∀ j, across i = some j → j < n ∧ [i, leftIndex n i, rightIndex n i, j].Nodup
  inverse : ∀ i < n, ∀ j, across i = some j → across j = some i
  even : n % 2 = 0 → ∀ i < n, across i ≠ none
  odd : n % 2 = 1 → ∃! i, i < n ∧ across i = none

/-- The private peers that are linked to a public peer. -/
noncomputable def attached (privatePeers : Finset ℕ) (L : ℕ → ℕ → Prop) (a : ℕ) : ℕ :=
  Set.ncard {p | p ∈ privatePeers ∧ L a p}

/-- The private peers are divided between the public ones. -/
structure Divided (publicPeers privatePeers : Finset ℕ) (L : ℕ → ℕ → Prop) : Prop where
  one : ∀ p ∈ privatePeers, ∃! a, L p a
  toPublic : ∀ p ∈ privatePeers, ∀ a, L p a → a ∈ publicPeers
  even : ∀ a ∈ publicPeers, ∀ b ∈ publicPeers, attached privatePeers L a ≤ attached privatePeers L b + 1
  sum : ∑ a ∈ publicPeers, attached privatePeers L a = privatePeers.card

/-- The shape of the links of a crossed or circular deployment. -/
structure DeploymentShape (strategy : DeploymentStrategyKind) (publicPeers privatePeers : Finset ℕ) (L : ℕ → ℕ → Prop) :
    Prop where
  symm : ∀ a b, L a b → L b a
  circle : ∃ ring across, ring.Nodup ∧ (∀ a, a ∈ ring ↔ a ∈ publicPeers) ∧ OnCircle ring across L ∧
    (strategy = .circular ∨ ring.length < 4 → ∀ i, across i = none) ∧
    (strategy = .crossed → 4 ≤ ring.length → AcrossCircle ring.length across)
  two : publicPeers.card = 2 → ∀ a ∈ publicPeers, ∃! b, b ∈ publicPeers ∧ L a b
  three : publicPeers.card = 3 → ∀ a ∈ publicPeers, Set.ncard {b | b ∈ publicPeers ∧ L a b} = 2
  divided : Divided publicPeers privatePeers L

/-! ### Across the circle -/

/-- The index across the circle. -/
def acrossCircle (n i : ℕ) : Option ℕ :=
  if n < 4 ∨ (n % 2 > 0 ∧ i = n - 1) then none else some (acrossIndex n i)

theorem acrossCircle_spec {n : ℕ} (hn : 4 ≤ n) : AcrossCircle n (acrossCircle n) := by
  have hsome : ∀ i j, acrossCircle n i = some j ↔ ¬ (n % 2 > 0 ∧ i = n - 1) ∧ acrossIndex n i = j := by
    intro i j
    unfold acrossCircle
    split_ifs with h
    · simp
      omega
    · simp
      omega
  have hnone : ∀ i, acrossCircle n i = none ↔ n % 2 > 0 ∧ i = n - 1 := by
    intro i
    unfold acrossCircle
    split_ifs with h
    · simp
      omega
    · simp
      omega
  refine ⟨?_, ?_, ?_, ?_⟩
  · intro i hi j hj
    obtain ⟨hmiddle, rfl⟩ := (hsome i j).mp hj
    simp only [leftIndex, rightIndex, acrossIndex]
    split_ifs <;> simp <;> omega
  · intro i hi j hj
    rw [hsome] at hj ⊢
    obtain ⟨hmiddle, rfl⟩ := hj
    simp only [acrossIndex]
    split_ifs <;> omega
  · intro heven i _ h
    have hodd := (hnone i).mp h
    omega
  · intro hodd
    refine ⟨n - 1, ⟨by omega, (hnone _).mpr ⟨by omega, rfl⟩⟩, fun i hi => ?_⟩
    exact ((hnone i).mp hi.2).2

theorem mem_crossedNbrs_iff {n i j : ℕ} (hn : 2 ≤ n) (hi : i < n) :
    j ∈ crossedNbrs n i ↔ j < n ∧ i ≠ j ∧ (j = leftIndex n i ∨ j = rightIndex n i ∨ acrossCircle n i = some j) := by
  rw [mem_crossedNbrs hn hi]
  simp only [leftIndex, rightIndex, acrossCircle, acrossIndex]
  split_ifs <;> simp <;> omega

theorem mem_ringNbrs_iff {n i j : ℕ} (hn : 2 ≤ n) (hi : i < n) :
    j ∈ ringNbrs n i ↔ j < n ∧ i ≠ j ∧ (j = leftIndex n i ∨ j = rightIndex n i) := by
  rw [mem_ringNbrs hn hi]
  simp only [leftIndex, rightIndex]
  split_ifs <;> omega

/-! ### Slices of the private peers -/

section slices
variable {pub : Generated} {sizes priv : List ℕ} {j b : ℕ}

theorem mem_slice : b ∈ slice sizes priv j ↔
    ∃ k, priv[k]? = some b ∧ (sizes.take j).sum ≤ k ∧ k < (sizes.take j).sum + sizes.getD j 0 := by
  rw [slice, List.mem_iff_getElem?]
  constructor
  · rintro ⟨i, hi⟩
    rw [List.getElem?_take] at hi
    split_ifs at hi with hlt
    · rw [List.getElem?_drop] at hi
      exact ⟨_, hi, by omega, by omega⟩
  · rintro ⟨k, hk, hle, hlt⟩
    refine ⟨k - (sizes.take j).sum, ?_⟩
    rw [List.getElem?_take, if_pos (by omega), List.getElem?_drop, Nat.add_sub_cancel' hle, hk]

theorem sum_take_succ : (sizes.take (j + 1)).sum = (sizes.take j).sum + sizes.getD j 0 := by
  rw [List.take_add_one, List.sum_append, List.getD_eq_getElem?_getD]
  cases sizes[j]? <;> simp

theorem sum_take_le {j' : ℕ} (h : j ≤ j') : (sizes.take j).sum ≤ (sizes.take j').sum := by
  obtain ⟨d, rfl⟩ := Nat.exists_eq_add_of_le h
  rw [List.take_add, List.sum_append]
  omega

theorem slice_unique (hpriv : priv.Nodup) {j' : ℕ} (h : b ∈ slice sizes priv j) (h' : b ∈ slice sizes priv j') :
    j = j' := by
  obtain ⟨k, hk, hle, hlt⟩ := mem_slice.mp h
  obtain ⟨k', hk', hle', hlt'⟩ := mem_slice.mp h'
  have hkk : k = k' := by
    obtain ⟨hkl, rfl⟩ := List.getElem?_eq_some_iff.mp hk
    obtain ⟨hkl', heq⟩ := List.getElem?_eq_some_iff.mp hk'
    exact (hpriv.getElem_inj_iff.mp heq).symm
  have hsucc := @sum_take_succ sizes j
  have hsucc' := @sum_take_succ sizes j'
  rcases Nat.lt_trichotomy j j' with hj | hj | hj
  · have := @sum_take_le sizes (j + 1) j' hj
    omega
  · exact hj
  · have := @sum_take_le sizes (j' + 1) j hj
    omega

theorem length_slice (hsum : sizes.sum = priv.length) : (slice sizes priv j).length = sizes.getD j 0 := by
  have hle : (sizes.take (j + 1)).sum ≤ sizes.sum := by
    have htake := @sum_take_le sizes (j + 1) (max (j + 1) sizes.length) (le_max_left ..)
    rwa [List.take_of_length_le (le_max_right (j + 1) sizes.length)] at htake
  rw [sum_take_succ] at hle
  rw [slice, List.length_take, List.length_drop]
  omega

end slices

theorem privPartitionSizes_le {q p x y : ℕ} (hx : x ∈ privPartitionSizes q p) (hy : y ∈ privPartitionSizes q p) :
    x ≤ y + 1 := by
  unfold privPartitionSizes at hx hy
  split_ifs at hx hy
  · simp only [List.mem_append, List.mem_replicate] at hx hy
    omega
  · simp only [List.mem_append, List.mem_replicate] at hx hy
    omega

/-! ### Links of a placement -/

section links
variable {pub : Generated} {nbrs : ℕ → List ℕ} {sizes priv : List ℕ} {peers privatePeers : Finset ℕ} {L : ℕ → ℕ → Prop}

/-- The links are those that the loop over the public peers leaves. -/
def PlacedLinks (pub : Generated) (nbrs : ℕ → List ℕ) (sizes priv : List ℕ) (L : ℕ → ℕ → Prop) : Prop :=
  ∀ a b, L a b ↔ (a ∈ pub.peers ∧ b ∈ publicPorts pub nbrs a) ∨ Owns pub sizes priv pub.peers.length a b ∨
    Owns pub sizes priv pub.peers.length b a

theorem owner_unique (hpriv : priv.Nodup) {k a a' b : ℕ} (h : Owns pub sizes priv k a b)
    (h' : Owns pub sizes priv k a' b) : a = a' := by
  obtain ⟨j, -, ha, hb⟩ := h
  obtain ⟨j', -, ha', hb'⟩ := h'
  rw [slice_unique hpriv hb hb', ha'] at ha
  exact (Option.some.inj ha).symm

theorem publicLink_iff (h : Placement pub nbrs sizes priv peers privatePeers) (hL : PlacedLinks pub nbrs sizes priv L)
    {i j a b : ℕ} (hi : pub.peers[i]? = some a) (hj : pub.peers[j]? = some b) :
    L a b ↔ 1 < pub.peers.length ∧ j ∈ nbrs i := by
  have ha := List.mem_of_getElem? hi
  have hb := List.mem_of_getElem? hj
  have howns : ∀ {a b}, b ∈ pub.peers → ¬ Owns pub sizes priv pub.peers.length a b :=
    fun hb hown => h.disjoint hb hown.mem.2
  rw [hL, or_iff_left (not_or.mpr ⟨howns hb, howns ha⟩), and_iff_right ha, publicPorts]
  split_ifs with hmany
  · rw [and_iff_right hmany, (h.ring hmany).mem_ringPorts hi]
    constructor
    · rintro ⟨j', hj', hb'⟩
      rwa [← (h.ring hmany).idxOf_eq hj, (h.ring hmany).idxOf_eq hb']
    · exact fun hmem => ⟨j, hmem, hj⟩
  · simp [hmany]

theorem privateLink_iff (h : Placement pub nbrs sizes priv peers privatePeers)
    (hL : PlacedLinks pub nbrs sizes priv L) {a p : ℕ} (hp : p ∈ priv) :
    (L a p ↔ Owns pub sizes priv pub.peers.length a p) ∧ (L p a ↔ Owns pub sizes priv pub.peers.length a p) := by
  have hnot : p ∉ pub.peers := fun hmem => h.disjoint hmem hp
  have howns : ¬ Owns pub sizes priv pub.peers.length p a := fun hown => hnot hown.mem.1
  constructor
  · rw [hL, or_iff_right fun hports => hnot (h.mem_publicPorts hports.1 hports.2).1, or_iff_left howns]
  · rw [hL, or_iff_right fun hports => hnot hports.1, or_iff_right howns]

theorem attached_eq (h : Placement pub nbrs sizes priv peers privatePeers) (hL : PlacedLinks pub nbrs sizes priv L)
    {j a : ℕ} (hj : pub.peers[j]? = some a) : attached privatePeers L a = sizes.getD j 0 := by
  have hset : {p | p ∈ privatePeers ∧ L a p} = ((slice sizes priv j).toFinset : Set ℕ) := by
    ext p
    rw [Finset.mem_coe, List.mem_toFinset]
    constructor
    · rintro ⟨hp, hlink⟩
      obtain ⟨j', -, hj', hmem⟩ := ((privateLink_iff h hL ((h.mem_private p).mpr hp)).1).mp hlink
      have hjj : j' = j := by
        obtain ⟨hlt, rfl⟩ := List.getElem?_eq_some_iff.mp hj
        obtain ⟨hlt', heq⟩ := List.getElem?_eq_some_iff.mp hj'
        exact h.public_nodup.getElem_inj_iff.mp heq
      rwa [← hjj]
    · intro hmem
      have hown : Owns pub sizes priv pub.peers.length a p :=
        ⟨j, (List.getElem?_eq_some_iff.mp hj).1, hj, hmem⟩
      exact ⟨(h.mem_private p).mp hown.mem.2, ((privateLink_iff h hL hown.mem.2).1).mpr hown⟩
  have hnodup : (slice sizes priv j).Nodup := (h.private_nodup.sublist (List.drop_sublist ..)).sublist (List.take_sublist ..)
  rw [attached, hset, Set.ncard_coe_finset, List.toFinset_card_of_nodup hnodup, length_slice h.sizes_sum]

theorem divided (h : Placement pub nbrs sizes priv peers privatePeers) (hL : PlacedLinks pub nbrs sizes priv L)
    (hsizes : ∀ x ∈ sizes, ∀ y ∈ sizes, x ≤ y + 1) : Divided (peers \ privatePeers) privatePeers L := by
  have hone : ∀ p ∈ privatePeers, ∃! a, L p a := by
    intro p hp
    have hpriv := (h.mem_private p).mpr hp
    obtain ⟨a, hown⟩ := h.exists_owner hpriv
    refine ⟨a, ((privateLink_iff h hL hpriv).2).mpr hown, fun a' ha' => ?_⟩
    exact owner_unique h.private_nodup (((privateLink_iff h hL hpriv).2).mp ha') hown
  have hpublic : ∀ p ∈ privatePeers, ∀ a, L p a → a ∈ peers \ privatePeers := by
    intro p hp a hlink
    exact (h.mem_public a).mp (((privateLink_iff h hL ((h.mem_private p).mpr hp)).2).mp hlink).mem.1
  refine ⟨hone, hpublic, fun a ha b hb => ?_, ?_⟩
  · obtain ⟨i, hi⟩ := List.mem_iff_getElem?.mp ((h.mem_public a).mpr ha)
    obtain ⟨j, hj⟩ := List.mem_iff_getElem?.mp ((h.mem_public b).mpr hb)
    have hmem : ∀ {i a}, pub.peers[i]? = some a → sizes.getD i 0 ∈ sizes := by
      intro i a hi
      have hlt : i < sizes.length := h.sizes_length ▸ (List.getElem?_eq_some_iff.mp hi).1
      rw [List.getD_eq_getElem?_getD, List.getElem?_eq_getElem hlt]
      exact List.getElem_mem hlt
    rw [attached_eq h hL hi, attached_eq h hL hj]
    exact hsizes _ (hmem hi) _ (hmem hj)
  · choose! owner howner honly using hone
    have hmaps : ∀ p ∈ privatePeers, owner p ∈ peers \ privatePeers := fun p hp => hpublic p hp _ (howner p hp)
    rw [Finset.card_eq_sum_card_fiberwise hmaps]
    refine Finset.sum_congr rfl fun a _ => ?_
    have hset : {p | p ∈ privatePeers ∧ L a p} = (privatePeers.filter fun p => owner p = a : Finset ℕ) := by
      ext p
      rw [Finset.mem_coe, Finset.mem_filter]
      refine and_congr_right fun hp => ?_
      have hpriv := (h.mem_private p).mpr hp
      rw [(privateLink_iff h hL hpriv).1, ← (privateLink_iff h hL hpriv).2]
      exact ⟨fun hlink => (honly p hp a hlink).symm, fun heq => heq ▸ howner p hp⟩
    rw [attached, hset, Set.ncard_coe_finset]

theorem onCircle (h : Placement pub nbrs sizes priv peers privatePeers) (hL : PlacedLinks pub nbrs sizes priv L)
    {across : ℕ → Option ℕ}
    (hnbrs : 2 ≤ pub.peers.length → ∀ i < pub.peers.length, ∀ j, j ∈ nbrs i ↔ j < pub.peers.length ∧ i ≠ j ∧
      (j = leftIndex pub.peers.length i ∨ j = rightIndex pub.peers.length i ∨ across i = some j)) :
    OnCircle pub.peers across L := by
  intro i j a b hi hj
  have hilt := (List.getElem?_eq_some_iff.mp hi).1
  have hjlt := (List.getElem?_eq_some_iff.mp hj).1
  rw [publicLink_iff h hL hi hj]
  by_cases hmany : 1 < pub.peers.length
  · rw [and_iff_right hmany, hnbrs hmany i hilt j, and_iff_right hjlt]
  · have hij : i = j := by omega
    exact iff_of_false (fun hboth => hmany hboth.1) fun hboth => hboth.1 hij

theorem OnCircle.all_linked {ring : List ℕ} {across : ℕ → Option ℕ} (h : OnCircle ring across L) (hring : ring.Nodup)
    (hlen : ring.length = 2 ∨ ring.length = 3) {a b : ℕ} (ha : a ∈ ring) (hb : b ∈ ring) : L a b ↔ b ≠ a := by
  obtain ⟨i, hi⟩ := List.mem_iff_getElem?.mp ha
  obtain ⟨j, hj⟩ := List.mem_iff_getElem?.mp hb
  have hilt := (List.getElem?_eq_some_iff.mp hi).1
  have hjlt := (List.getElem?_eq_some_iff.mp hj).1
  have hne : b ≠ a ↔ i ≠ j := by
    obtain ⟨-, rfl⟩ := List.getElem?_eq_some_iff.mp hi
    obtain ⟨-, rfl⟩ := List.getElem?_eq_some_iff.mp hj
    rw [Ne, Ne, hring.getElem_inj_iff, eq_comm]
  rw [h i j a b hi hj, hne]
  refine and_iff_left_of_imp fun hij => ?_
  simp only [leftIndex, rightIndex]
  split_ifs <;> omega

theorem shape_of_placement {strategy : DeploymentStrategyKind} (across : ℕ → Option ℕ)
    (h : Placement pub nbrs sizes priv peers privatePeers) (hL : PlacedLinks pub nbrs sizes priv L)
    (hsizes : ∀ x ∈ sizes, ∀ y ∈ sizes, x ≤ y + 1)
    (hnbrs : 2 ≤ pub.peers.length → ∀ i < pub.peers.length, ∀ j, j ∈ nbrs i ↔ j < pub.peers.length ∧ i ≠ j ∧
      (j = leftIndex pub.peers.length i ∨ j = rightIndex pub.peers.length i ∨ across i = some j))
    (hnone : strategy = .circular ∨ pub.peers.length < 4 → ∀ i, across i = none)
    (hacross : strategy = .crossed → 4 ≤ pub.peers.length → AcrossCircle pub.peers.length across) :
    DeploymentShape strategy (peers \ privatePeers) privatePeers L := by
  have hcircle := onCircle h hL hnbrs
  have hcard : (peers \ privatePeers).card = pub.peers.length := by
    rw [← List.toFinset_card_of_nodup h.public_nodup]
    congr 1
    ext a
    rw [List.mem_toFinset, h.mem_public]
  have hlinked : (peers \ privatePeers).card = 2 ∨ (peers \ privatePeers).card = 3 → ∀ a ∈ peers \ privatePeers,
      {b | b ∈ peers \ privatePeers ∧ L a b} = (((peers \ privatePeers).erase a : Finset ℕ) : Set ℕ) := by
    intro hfew a ha
    ext b
    rw [Finset.mem_coe, Finset.mem_erase, and_comm (a := b ≠ a)]
    refine and_congr_right fun hb => ?_
    rw [← h.mem_public] at ha hb
    exact hcircle.all_linked h.public_nodup (hcard ▸ hfew) ha hb
  have hdivided := divided h hL hsizes
  refine ⟨fun a b hab => ?_, ⟨pub.peers, across, h.public_nodup, h.mem_public, hcircle, hnone, hacross⟩, ?_, ?_, hdivided⟩
  · rcases (hL a b).mp hab with ⟨ha, hb⟩ | hown | hown
    · exact (hL b a).mpr (.inl ⟨(h.mem_publicPorts ha hb).1, (h.mem_publicPorts ha hb).2.1⟩)
    · exact (hL b a).mpr (.inr (.inr hown))
    · exact (hL b a).mpr (.inr (.inl hown))
  · intro htwo a ha
    have hone : ((peers \ privatePeers).erase a).card = 1 := by
      rw [Finset.card_erase_of_mem ha, htwo]
    obtain ⟨b, hb⟩ := Finset.card_eq_one.mp hone
    have hset := hlinked (.inl htwo) a ha
    rw [hb, Finset.coe_singleton] at hset
    exact ⟨b, (Set.ext_iff.mp hset b).mpr rfl, fun b' hb' => (Set.ext_iff.mp hset b').mp hb'⟩
  · intro hthree a ha
    rw [hlinked (.inr hthree) a ha, Set.ncard_coe_finset, Finset.card_erase_of_mem ha, hthree]

end links

/-! ### Deployments -/

namespace DeploymentStrategyKind

variable {peers privatePeers : Finset ℕ}

/-- The crossed and the circular strategy deploy a shape, if there is a public peer. -/
theorem generateDeployment_shape (o : Orders) {strategy : DeploymentStrategyKind} (hstrategy : strategy ≠ .fullMesh)
    (hsub : privatePeers ⊆ peers) (hpub : (peers \ privatePeers).Nonempty) :
    ∃ (g : Generated) (graph : DeploymentGraph peers privatePeers),
      strategy.generateDeployment o peers privatePeers = .ok g ∧ g.Realizes graph.adj ∧
      DeploymentShape strategy (peers \ privatePeers) privatePeers (Lists graph.adj) := by
  have hlen : ∀ {pub nbrs sizes priv}, Placement pub nbrs sizes priv peers privatePeers →
      (peers \ privatePeers).card = pub.peers.length := by
    intro pub nbrs sizes priv h
    rw [← List.toFinset_card_of_nodup h.public_nodup]
    congr 1
    ext a
    rw [List.mem_toFinset, h.mem_public]
  have hsizes : ∀ x ∈ privPartitionSizes privatePeers.card (peers \ privatePeers).card,
      ∀ y ∈ privPartitionSizes privatePeers.card (peers \ privatePeers).card, x ≤ y + 1 :=
    fun x hx y hy => privPartitionSizes_le hx hy
  cases strategy with
  | fullMesh => exact absurd rfl hstrategy
  | crossed =>
    obtain ⟨g, pub, graph, hg, hreal, hplacement, hlists⟩ := CrossedDeploymentStrategy.generateDeployment_placement o hsub
      hpub (CrossedDeploymentStrategy.publicRing o) o.mem_shuffled
    refine ⟨g, graph, hg, hreal, shape_of_placement (acrossCircle pub.peers.length) hplacement hlists hsizes
      ?_ ?_ ?_⟩
    · intro hmany i hi j
      rw [hlen hplacement]
      exact mem_crossedNbrs_iff hmany hi
    · intro hfew i
      exact if_pos (.inl (hfew.resolve_left (by decide)))
    · exact fun _ hfour => acrossCircle_spec hfour
  | circular =>
    obtain ⟨g, pub, graph, hg, hreal, hplacement, hlists⟩ := CrossedDeploymentStrategy.generateDeployment_placement o hsub
      hpub (CircularDeploymentStrategy.publicRing o) o.mem_shuffled
    refine ⟨g, graph, hg, hreal, shape_of_placement (fun _ => none) hplacement hlists hsizes ?_ ?_ ?_⟩
    · intro hmany i hi j
      rw [hlen hplacement, mem_ringNbrs_iff hmany hi]
      simp
    · exact fun _ _ => rfl
    · exact fun hcrossed => absurd hcrossed (by decide)

/-- A crossed or circular deployment has its shape if there is a public peer, and is empty otherwise. -/
theorem deployment_shape (o : Orders) {strategy : DeploymentStrategyKind} (hstrategy : strategy ≠ .fullMesh)
    (hsub : privatePeers ⊆ peers) {subnet : IPv4Network} {m m' : P2pLinkAllocationMap} {res : P2pLinksMap}
    (hnew : P2pLinkAllocationMap.new subnet = .ok m)
    (hdeploy : strategy.deploy o peers privatePeers m = .ok (res, m')) :
    ((peers \ privatePeers).Nonempty →
      DeploymentShape strategy (peers \ privatePeers) privatePeers res.ListsPeer) ∧
    (peers \ privatePeers = ∅ → res = ∅) := by
  constructor
  · intro hpub
    obtain ⟨g, graph, hg, hreal, hshape⟩ := generateDeployment_shape o hstrategy hsub hpub
    rw [deploy, if_pos hpub.card_pos, hg] at hdeploy
    rcases Generated.deploy_realizes hreal hnew with ⟨-, res', m'', hok, -, hdep⟩ | ⟨-, e, herr⟩
    · obtain ⟨rfl, rfl⟩ := Prod.mk.inj (Except.ok.inj (hdeploy.symm.trans hok))
      have hlists : res.ListsPeer = Lists graph.adj := by
        funext a b
        exact propext hdep.listsPeer_iff
      rwa [hlists]
    · cases hdeploy.symm.trans herr
  · intro hempty
    rw [deploy, hempty, if_neg (by simp)] at hdeploy
    cases hdeploy
    rfl

/-- A crossed deployment of three public peers and a private one. -/
theorem deployment_shape_three : ∃ m res m', P2pLinkAllocationMap.new (network10 16 (by decide)) = .ok m ∧
    crossed.deploy .unshuffled {1, 2, 3, 4} {4} m = .ok (res, m') ∧
    DeploymentShape .crossed ({1, 2, 3, 4} \ {4}) {4} res.ListsPeer := by
  have hsub : ({4} : Finset ℕ) ⊆ {1, 2, 3, 4} := by decide
  obtain ⟨m, hnew⟩ : ∃ m, P2pLinkAllocationMap.new (network10 16 (by decide)) = .ok m := ⟨_, rfl⟩
  obtain ⟨res, m', hok⟩ : ∃ res m', crossed.deploy .unshuffled {1, 2, 3, 4} {4} m = .ok (res, m') := by
    cases hnew
    exact ⟨_, _, rfl⟩
  exact ⟨m, res, m', hnew, hok, (deployment_shape .unshuffled (by decide) hsub hnew hok).1 (by decide)⟩

/-- A private peer without public ones has no link. -/
theorem lonely_private_peer : ∃ m res m', P2pLinkAllocationMap.new (network10 16 (by decide)) = .ok m ∧
    crossed.deploy .unshuffled {1} {1} m = .ok (res, m') ∧ ¬ ∃ a, res.ListsPeer 1 a := by
  refine ⟨_, _, _, rfl, rfl, ?_⟩
  rintro ⟨a, p, hp, -⟩
  cases hp

end DeploymentStrategyKind

end Uno
