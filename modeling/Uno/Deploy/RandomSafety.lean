import Uno.Deploy.RandomRuns
import Mathlib.Data.Finset.Max

/-!
# When the random strategy is safe

The exact condition on the peers and the number of tries under which every normal return of
`generateEdges` leaves a graph as expected (`generateEdges_safe_iff`).

For the runs that go wrong, let `A`, `B`, `C` be public and `x`, `y`, `z` private. All tries but the
last store walks that avoid `y` and `z` and leave `A` with one place (`stuckWalk`, `detourWalk`); the
last try is complete and ends with `y`, `A`, `z` (`lastWalk`): `y` takes the place, and the only edge
of `z` is dropped (`isolated_lastWalk`).
-/

namespace Uno

namespace RandomDeploymentGraph

variable {g : RandomDeploymentGraph}

/-! ### Runs that follow given walks -/

/-- The graph after the walks of the first tries. -/
def afterWalks (g : RandomDeploymentGraph) (ws : ℕ → List ℕ) : ℕ → RandomDeploymentGraph
  | 0 => g
  | i + 1 => (afterWalks g ws i).storeEdges (walkEdges (ws i))

theorem sameSettings_afterWalks (ws : ℕ → List ℕ) (i : ℕ) : g.SameSettings (g.afterWalks ws i) := by
  induction i with
  | zero => exact .refl g
  | succ i ih => exact ih.trans (sameSettings_storeEdges _)

theorem afterWalks_inv (hg : g.Inv) {ws : ℕ → List ℕ} {n : ℕ} (hws : ∀ i < n, g.IsWalk (ws i)) :
    ∀ i ≤ n, (g.afterWalks ws i).Inv := by
  intro i hi
  induction i with
  | zero => exact hg
  | succ i ih =>
    have hw := (hws i hi).of_sameSettings (sameSettings_afterWalks ws i)
    exact storeEdges_inv (ih (by omega)) hw.validEdges

theorem mem_afterWalks_mono {ws : ℕ → List ℕ} {n : ℕ} (hws : ∀ i < n, g.IsWalk (ws i)) {u v i j : ℕ}
    (hij : i ≤ j) (hj : j ≤ n) (h : v ∈ (g.afterWalks ws i).peerEdges u) :
    v ∈ (g.afterWalks ws j).peerEdges u := by
  induction hij with
  | refl => exact h
  | @step j hij ih =>
    have hw := (hws j hj).of_sameSettings (sameSettings_afterWalks ws j)
    exact mem_storeEdges_of_mem hw.validEdges (ih (by omega))

theorem afterWalks_eq_empty {ws : ℕ → List ℕ} {n : ℕ} (hws : ∀ i < n, g.IsWalk (ws i)) {v : ℕ}
    (hblank : g.peerEdges v = ∅) (hv : ∀ i < n, v ∉ ws i) : ∀ i ≤ n, (g.afterWalks ws i).peerEdges v = ∅ := by
  intro i hi
  induction i with
  | zero => exact hblank
  | succ i ih =>
    have hw := (hws i hi).of_sameSettings (sameSettings_afterWalks ws i)
    rw [Finset.eq_empty_iff_forall_notMem]
    intro u hu
    rcases mem_of_mem_storeEdges hw.validEdges hu with hu | hu | hu
    · rw [ih (by omega)] at hu
      exact Finset.notMem_empty u hu
    · exact hv i hi (mem_of_mem_walkEdges hu).1
    · exact hv i hi (mem_of_mem_walkEdges hu).2

/-- With a peer that stays isolated, tries that follow incomplete walks and then a complete one end
normally. -/
theorem tryAll_following (hg : g.Inv) (hstores : g.publicPeers.card ≤ g.privatePeers.card)
    {ws : ℕ → List ℕ} {maxTries : ℕ}
    (hws : ∀ i < maxTries, ws i ≠ [] ∧ g.IsWalk (ws i) ∧ g.IsMaximal (ws i))
    (hlast : ∀ i < maxTries, (ws i).length = g.peers.card ↔ i + 1 = maxTries) {z : ℕ} (hz : z ∈ g.peers)
    (hisolated : ∀ i ≤ maxTries, (g.afterWalks ws i).peerEdges z = ∅) (k i : ℕ) (hk : i + k = maxTries) :
    tryAll (following ws) maxTries (List.range' i k) (g.afterWalks ws i) = .ok (g.afterWalks ws maxTries) := by
  induction k generalizing i with
  | zero =>
    obtain rfl : i = maxTries := by omega
    rfl
  | succ k ih =>
    have hi : i < maxTries := by omega
    have hsame := sameSettings_afterWalks (g := g) ws i
    have hsame' := sameSettings_afterWalks (g := g) ws (i + 1)
    obtain ⟨hne, hw, hmaximal⟩ := hws i hi
    have hw' := hw.of_sameSettings hsame
    have hmaximal' : (g.afterWalks ws i).IsMaximal (ws i) := by
      rw [IsMaximal, hsame.peers, hsame.publicPeers]
      exact hmaximal
    have htree := generateNewSpanningTree_following hne hw' hmaximal'
    have hinv : (g.afterWalks ws (i + 1)).Inv :=
      afterWalks_inv hg (fun j hj => (hws j hj).2.1) (i + 1) hi
    have htest : ¬ (g.afterWalks ws (i + 1)).testPartial := by
      intro htest
      have := nonempty_of_testPartial hinv htest z (by rw [hsame'.peers]; exact hz)
      rw [hisolated (i + 1) hi] at this
      exact Finset.not_nonempty_empty this
    have hall : ¬ (g.afterWalks ws (i + 1)).okPeers.card + (g.afterWalks ws (i + 1)).fullPeers.card ≥
        (g.afterWalks ws (i + 1)).peers.card := fun h => htest (testPartial_of_ok h)
    have htry : (g.afterWalks ws i).tryEdges (following ws) maxTries i =
        .ok (false, g.afterWalks ws (i + 1)) := by
      rw [tryEdges, htree, treeOf, hsame.peers]
      by_cases hcomplete : (ws i).length = g.peers.card
      · rw [if_pos hcomplete]
        exact if_neg hall
      · rw [if_neg hcomplete]
        have hmore : i + 1 < maxTries := by
          have := mt (hlast i hi).mpr hcomplete
          omega
        have hstores' : (g.afterWalks ws i).privatePeers.card ≥ (g.afterWalks ws i).publicPeers.card := by
          rw [hsame.privatePeers, hsame.publicPeers]
          exact hstores
        simp only [Except.ok_bind, hstores', if_true, true_and, hmore]
        exact if_neg htest
    rw [List.range'_succ, tryAll, htry]
    exact ih (i + 1) (by omega)

/-! ### The last walk -/

theorem card_storeEdge_of_room {a b k : ℕ} (hne : a ≠ b) (hb : (g.peerEdges b).card < g.maxPeerEdges)
    (hnew : b ∉ g.peerEdges a) (hk : k ≤ (g.peerEdges a).card) (hk' : k < g.maxPeerEdges) :
    k + 1 ≤ ((g.storeEdge a b).peerEdges a).card ∧ k + 1 ≤ ((g.storeEdge b a).peerEdges a).card := by
  rcases Nat.lt_or_ge (g.peerEdges a).card g.maxPeerEdges with hroom | hfull
  · have hcard : k + 1 ≤ (insert b (g.peerEdges a)).card := by
      rw [Finset.card_insert_of_notMem hnew]
      omega
    constructor
    · refine hcard.trans (Finset.card_le_card fun y hy => (mem_storeEdge hne a y).mpr ?_)
      rcases Finset.mem_insert.mp hy with rfl | hy
      · exact .inr ⟨hroom, hb, .inl ⟨rfl, rfl⟩⟩
      · exact .inl hy
    · refine hcard.trans (Finset.card_le_card fun y hy => (mem_storeEdge hne.symm a y).mpr ?_)
      rcases Finset.mem_insert.mp hy with rfl | hy
      · exact .inr ⟨hb, hroom, .inr ⟨rfl, rfl⟩⟩
      · exact .inl hy
  · constructor
    · exact le_trans (by omega) (Finset.card_le_card fun y => mem_storeEdge_of_mem hne)
    · exact le_trans (by omega) (Finset.card_le_card fun y => mem_storeEdge_of_mem hne.symm)

/-- If `y` and `z` have no edges and `A` lacks one, a walk that ends with `y`, `A`, `z` leaves `z`
without edges. -/
theorem isolated_lastWalk {pre : List ℕ} {y A z : ℕ} (hw : g.IsWalk (pre ++ [y, A, z]))
    (hmax : 3 ≤ g.maxPeerEdges) (hA : g.maxPeerEdges ≤ (g.peerEdges A).card + 1)
    (hy : g.peerEdges y = ∅) (hz : g.peerEdges z = ∅) (hg : g.Inv) :
    (g.storeEdges (walkEdges (pre ++ [y, A, z]))).peerEdges z = ∅ := by
  have hnodup := hw.nodup
  have hpre : g.IsWalk (pre ++ [y]) := by
    have : g.IsWalk ((pre ++ [y]) ++ [A, z]) := by simpa using hw
    exact this.left
  have hAy : A ≠ y ∧ A ∉ pre ∧ z ≠ y ∧ z ∉ pre ∧ A ≠ z := by
    rw [List.nodup_append] at hnodup
    obtain ⟨-, htail, hdisj⟩ := hnodup
    simp only [List.nodup_cons, List.mem_cons, List.not_mem_nil, or_false, not_or, not_false_eq_true,
      List.nodup_nil, and_true] at htail
    exact ⟨Ne.symm htail.1.1, fun h => hdisj A h A (by simp) rfl, Ne.symm htail.1.2,
      fun h => hdisj z h z (by simp) rfl, htail.2⟩
  obtain ⟨hAy, hApre, hzy, hzpre, hAz⟩ := hAy
  have hedges : walkEdges (pre ++ [y, A, z]) = walkEdges (pre ++ [y]) ++ [(y, A), (A, z)] := by
    have h1 := walkEdges_append_pair (pre ++ [y]) A z
    have h2 := walkEdges_append_pair pre y A
    simp only [List.append_assoc, List.cons_append, List.nil_append] at h1 h2
    rw [h1, h2, List.append_assoc]
    rfl
  have hsame := sameSettings_storeEdges (g := g) (walkEdges (pre ++ [y]))
  have hinv := storeEdges_inv hg hpre.validEdges
  rw [hedges, storeEdges_append]
  generalize hg₁ : g.storeEdges (walkEdges (pre ++ [y])) = g₁ at hsame hinv ⊢
  have hnew : y ∉ g₁.peerEdges A := by
    intro h
    rw [← hg₁] at h
    rcases mem_of_mem_storeEdges hpre.validEdges h with h | h | h
    · have := hg.symm A y h
      rw [hy] at this
      exact Finset.notMem_empty A this
    · have := (mem_of_mem_walkEdges h).1
      simp [hAy, hApre] at this
    · have := (mem_of_mem_walkEdges h).2
      simp [hAy, hApre] at this
  have hyroom : (g₁.peerEdges y).card < g₁.maxPeerEdges := by
    have := card_storeEdges_le hpre y
    rw [hg₁, hy, Finset.card_empty] at this
    rw [hsame.max]
    omega
  have hAcard : (g.peerEdges A).card ≤ (g₁.peerEdges A).card := by
    refine Finset.card_le_card fun u hu => ?_
    rw [← hg₁]
    exact mem_storeEdges_of_mem hpre.validEdges hu
  have hz₁ : g₁.peerEdges z = ∅ := by
    rw [Finset.eq_empty_iff_forall_notMem]
    intro u hu
    rw [← hg₁] at hu
    rcases mem_of_mem_storeEdges hpre.validEdges hu with hu | hu | hu
    · rw [hz] at hu
      exact Finset.notMem_empty u hu
    · have := (mem_of_mem_walkEdges hu).1
      simp [hzy, hzpre] at this
    · have := (mem_of_mem_walkEdges hu).2
      simp [hzy, hzpre] at this
  -- `y` takes the last place of `A`
  have hfull : g₁.maxPeerEdges ≤ ((g₁.storeEdge y A).peerEdges A).card := by
    have hplace := (card_storeEdge_of_room (k := g₁.maxPeerEdges - 1) hAy hyroom hnew
      (by rw [hsame.max]; omega) (by rw [hsame.max]; omega)).2
    omega
  have hz₂ : (g₁.storeEdge y A).peerEdges z = ∅ := by
    rw [(storeEdge_peerEdges_subset hAy.symm z).1 hzy (Ne.symm hAz), hz₁]
  have hsame₂ := sameSettings_storeEdge (g := g₁) (a := y) (b := A)
  rw [storeEdges_cons, storeEdges_cons, storeEdges_nil]
  change ((g₁.storeEdge y A).storeEdge A z).peerEdges z = ∅
  rw [storeEdge, if_neg (by rw [hsame₂.max]; omega), hz₂]

/-! ### The walks of a run that goes wrong -/

/-- Public and private peers in turn. -/
def zigzag : List ℕ → List ℕ → List ℕ
  | r :: rest, s :: rest' => r :: s :: zigzag rest rest'
  | _, _ => []

theorem zigzag_perm {l l' : List ℕ} (h : l.length = l'.length) : (zigzag l l').Perm (l ++ l') := by
  induction l generalizing l' with
  | nil =>
    obtain rfl : l' = [] := List.eq_nil_of_length_eq_zero h.symm
    exact .refl _
  | cons r rest ih =>
    cases l' with
    | nil => cases h
    | cons s rest' =>
      exact (((ih (Nat.succ.inj h)).cons s).trans List.perm_middle.symm).cons r

theorem zigzag_append {l l' : List ℕ} (h : l.length = l'.length) (k k' : List ℕ) :
    zigzag (l ++ k) (l' ++ k') = zigzag l l' ++ zigzag k k' := by
  induction l generalizing l' with
  | nil =>
    obtain rfl : l' = [] := List.eq_nil_of_length_eq_zero h.symm
    rfl
  | cons r rest ih =>
    cases l' with
    | nil => cases h
    | cons s rest' => exact congrArg (fun t => r :: s :: t) (ih (Nat.succ.inj h))

theorem zigzag_chain (l' : List ℕ) {l : List ℕ} (hl : ∀ v ∈ l, v ∈ g.publicPeers) :
    (zigzag l l').IsChain (fun a b => a ∈ g.publicPeers ∨ b ∈ g.publicPeers) ∧
      ∀ v ∈ (zigzag l l').head?, v ∈ g.publicPeers := by
  induction l generalizing l' with
  | nil => simp [zigzag]
  | cons r rest ih =>
    cases l' with
    | nil => simp [zigzag]
    | cons s rest' =>
      obtain ⟨hchain, hhead⟩ := ih rest' fun v hv => hl v (List.mem_cons_of_mem _ hv)
      have hr := hl r List.mem_cons_self
      refine ⟨?_, by simpa [zigzag] using hr⟩
      rw [zigzag, List.isChain_cons_cons, List.isChain_cons]
      exact ⟨.inl hr, fun v hv => .inr (hhead v hv), hchain⟩

theorem chain_of_public {l : List ℕ} (hl : ∀ v ∈ l, v ∈ g.publicPeers) (x : ℕ) :
    (l ++ [x]).IsChain fun a b => a ∈ g.publicPeers ∨ b ∈ g.publicPeers := by
  induction l with
  | nil => exact List.isChain_singleton _
  | cons a rest ih =>
    rw [List.cons_append, List.isChain_cons]
    exact ⟨fun _ _ => .inl (hl a List.mem_cons_self), ih fun v hv => hl v (List.mem_cons_of_mem _ hv)⟩

/-- The peers of a graph: three public and three private ones by name, and the others. -/
structure Cast (g : RandomDeploymentGraph) (lead : List ℕ) where
  A : ℕ
  B : ℕ
  C : ℕ
  restPublic : List ℕ
  x : ℕ
  y : ℕ
  z : ℕ
  restPrivate : List ℕ
  public_nodup : (A :: B :: C :: restPublic).Nodup
  mem_public : ∀ v, v ∈ A :: B :: C :: restPublic ↔ v ∈ g.publicPeers
  private_nodup : (x :: y :: z :: (lead ++ restPrivate)).Nodup
  mem_private : ∀ v, v ∈ x :: y :: z :: (lead ++ restPrivate) ↔ v ∈ g.privatePeers
  length : restPublic.length = restPrivate.length
  lead_length : lead.length ≤ 1
  subset : g.privatePeers ⊆ g.peers

namespace Cast

variable {lead : List ℕ} (cast : g.Cast lead)

def publicList : List ℕ := cast.A :: cast.B :: cast.C :: cast.restPublic

def privateList : List ℕ := cast.x :: cast.y :: cast.z :: (lead ++ cast.restPrivate)

/-- All public peers, then `x`. -/
def stuckWalk : List ℕ := cast.B :: cast.A :: cast.C :: cast.restPublic ++ [cast.x]

/-- All public peers, `A` last, then `x`. -/
def detourWalk : List ℕ := (cast.B :: cast.C :: cast.restPublic) ++ [cast.A, cast.x]

/-- All peers, with `y`, `A`, `z` at the end. -/
def lastWalk : List ℕ :=
  (lead ++ zigzag cast.restPublic cast.restPrivate ++ [cast.B, cast.x, cast.C]) ++ [cast.y, cast.A, cast.z]

theorem mem_peers {v : ℕ} : v ∈ cast.publicList ++ cast.privateList ↔ v ∈ g.peers := by
  rw [List.mem_append, publicList, privateList, cast.mem_public, cast.mem_private, publicPeers,
    Finset.mem_sdiff]
  constructor
  · rintro (h | h)
    · exact h.1
    · exact cast.subset h
  · intro h
    by_cases hpriv : v ∈ g.privatePeers
    · exact .inr hpriv
    · exact .inl ⟨h, hpriv⟩

theorem disjoint {v : ℕ} (h : v ∈ cast.publicList) (h' : v ∈ cast.privateList) : False :=
  (Finset.mem_sdiff.mp ((cast.mem_public v).mp h)).2 ((cast.mem_private v).mp h')

theorem nodup_all : (cast.publicList ++ cast.privateList).Nodup :=
  cast.public_nodup.append cast.private_nodup fun _ h h' => cast.disjoint h h'

theorem card_peers : g.peers.card = (cast.publicList ++ cast.privateList).length := by
  rw [← List.toFinset_card_of_nodup cast.nodup_all]
  congr 1
  ext v
  rw [List.mem_toFinset, cast.mem_peers]

theorem isWalk_of_perm {l : List ℕ} (hperm : l.Perm cast.publicList) :
    g.IsWalk (l ++ [cast.x]) ∧ g.IsMaximal (l ++ [cast.x]) ∧ (l ++ [cast.x]).length ≠ g.peers.card := by
  have hpublic : ∀ v ∈ l, v ∈ g.publicPeers := fun v hv => (cast.mem_public v).mp (hperm.subset hv)
  have hx : cast.x ∈ cast.privateList := List.mem_cons_self
  have hfresh : cast.x ∉ l := fun h => cast.disjoint (hperm.subset h) hx
  have hlen : (l ++ [cast.x]).length < g.peers.card := by
    rw [cast.card_peers]
    simp only [List.length_append, hperm.length_eq, privateList, List.length_cons, List.length_nil]
    omega
  refine ⟨⟨?_, ?_, chain_of_public hpublic _⟩, .inr ⟨hlen, ?_, l, cast.x, rfl, ?_⟩, hlen.ne⟩
  · exact (hperm.nodup_iff.mpr cast.public_nodup).append (List.nodup_singleton _) (by simpa using hfresh)
  · intro v hv
    rw [← cast.mem_peers]
    rcases List.mem_append.mp hv with hv | hv
    · exact List.mem_append_left _ (hperm.subset hv)
    · rw [List.mem_singleton.mp hv]
      exact List.mem_append_right _ hx
  · intro v hv
    exact List.mem_toFinset.mpr (List.mem_append_left _ (hperm.symm.subset ((cast.mem_public v).mpr hv)))
  · exact fun h => cast.disjoint ((cast.mem_public _).mpr h) hx

theorem isWalk_stuckWalk :
    g.IsWalk cast.stuckWalk ∧ g.IsMaximal cast.stuckWalk ∧ cast.stuckWalk.length ≠ g.peers.card :=
  cast.isWalk_of_perm (l := cast.B :: cast.A :: cast.C :: cast.restPublic) (.swap _ _ _)

theorem detourWalk_eq :
    cast.detourWalk = (cast.B :: cast.C :: cast.restPublic ++ [cast.A]) ++ [cast.x] := by
  simp [detourWalk]

theorem isWalk_detourWalk :
    g.IsWalk cast.detourWalk ∧ g.IsMaximal cast.detourWalk ∧ cast.detourWalk.length ≠ g.peers.card := by
  rw [cast.detourWalk_eq]
  exact cast.isWalk_of_perm (List.perm_append_singleton _ _)

theorem lastWalk_eq : cast.lastWalk = lead ++ zigzag (cast.restPublic ++ [cast.B, cast.C, cast.A])
    (cast.restPrivate ++ [cast.x, cast.y, cast.z]) := by
  rw [zigzag_append cast.length, lastWalk]
  simp [zigzag]

theorem lastWalk_perm : cast.lastWalk.Perm (cast.publicList ++ cast.privateList) := by
  have hlen : (cast.restPublic ++ [cast.B, cast.C, cast.A]).length =
      (cast.restPrivate ++ [cast.x, cast.y, cast.z]).length := by
    simp only [List.length_append, cast.length, List.length_cons]
  rw [lastWalk_eq]
  refine ((zigzag_perm hlen).append_left lead).trans (List.perm_iff_count.mpr fun v => ?_)
  simp only [publicList, privateList, List.count_append, List.count_cons, List.count_nil]
  ring

theorem isWalk_lastWalk : g.IsWalk cast.lastWalk ∧ cast.lastWalk.length = g.peers.card := by
  refine ⟨⟨cast.lastWalk_perm.nodup_iff.mpr cast.nodup_all, fun v hv => ?_, ?_⟩, ?_⟩
  · exact cast.mem_peers.mp (cast.lastWalk_perm.subset hv)
  · have hpublic : ∀ v ∈ cast.restPublic ++ [cast.B, cast.C, cast.A], v ∈ g.publicPeers := by
      intro v hv
      rw [← cast.mem_public]
      simp only [List.mem_append, List.mem_cons, List.not_mem_nil, or_false] at hv ⊢
      tauto
    obtain ⟨hchain, hhead⟩ := zigzag_chain (cast.restPrivate ++ [cast.x, cast.y, cast.z]) hpublic
    rw [lastWalk_eq]
    match lead, cast.lead_length with
    | [], _ => exact hchain
    | [v], _ =>
      rw [List.singleton_append, List.isChain_cons]
      exact ⟨fun u hu => .inr (hhead u hu), hchain⟩
  · rw [cast.lastWalk_perm.length_eq, cast.card_peers]

theorem not_mem_of_perm {l : List ℕ} (hperm : l.Perm cast.publicList) :
    cast.y ∉ l ++ [cast.x] ∧ cast.z ∉ l ++ [cast.x] := by
  have hnodup := cast.private_nodup
  simp only [List.nodup_cons, List.mem_cons, not_or] at hnodup
  have hy : cast.y ∈ cast.privateList := by simp [privateList]
  have hz : cast.z ∈ cast.privateList := by simp [privateList]
  simp only [List.mem_append, List.mem_singleton, not_or]
  exact ⟨⟨fun h => cast.disjoint (hperm.subset h) hy, Ne.symm hnodup.1.1⟩,
    ⟨fun h => cast.disjoint (hperm.subset h) hz, Ne.symm hnodup.1.2.1⟩⟩

/-- Tries that avoid `y` and `z` and leave `A` with one place at most, and then the last walk: the
run ends normally and `z` has no edge. -/
theorem ends_isolated (hg : g.Inv) (hblank : ∀ v, g.peerEdges v = ∅) (hmax : 3 ≤ g.maxPeerEdges)
    (hstores : g.publicPeers.card ≤ g.privatePeers.card) {ws : ℕ → List ℕ} {n : ℕ}
    (hws : ∀ i < n, ∃ l, l.Perm cast.publicList ∧ ws i = l ++ [cast.x]) (hlast : ws n = cast.lastWalk)
    (hA : g.maxPeerEdges ≤ ((g.afterWalks ws n).peerEdges cast.A).card + 1) :
    g.generateEdges (following ws) (n + 1) = .ok (g.afterWalks ws (n + 1)) ∧
      (g.afterWalks ws (n + 1)).peerEdges cast.z = ∅ := by
  have hwalk : ∀ i < n, g.IsWalk (ws i) := by
    intro i hi
    obtain ⟨l, hperm, heq⟩ := hws i hi
    rw [heq]
    exact (cast.isWalk_of_perm hperm).1
  have hfresh : ∀ i < n, cast.y ∉ ws i ∧ cast.z ∉ ws i := by
    intro i hi
    obtain ⟨l, hperm, heq⟩ := hws i hi
    rw [heq]
    exact cast.not_mem_of_perm hperm
  have hy := afterWalks_eq_empty hwalk (hblank cast.y) (fun i hi => (hfresh i hi).1) n le_rfl
  have hz := afterWalks_eq_empty hwalk (hblank cast.z) (fun i hi => (hfresh i hi).2)
  have hsame := sameSettings_afterWalks (g := g) ws n
  have hlastwalk := cast.isWalk_lastWalk.1.of_sameSettings hsame
  have hisolated : (g.afterWalks ws (n + 1)).peerEdges cast.z = ∅ := by
    change ((g.afterWalks ws n).storeEdges (walkEdges (ws n))).peerEdges cast.z = ∅
    rw [hlast]
    refine isolated_lastWalk hlastwalk ?_ ?_ hy (hz n le_rfl) (afterWalks_inv hg hwalk n le_rfl)
    · rw [hsame.max]; exact hmax
    · rw [hsame.max]; exact hA
  refine ⟨?_, hisolated⟩
  have hzmem : cast.z ∈ g.peers := cast.mem_peers.mp (by simp [privateList])
  rw [generateEdges, List.range_eq_range']
  refine tryAll_following hg hstores (fun i hi => ?_) (fun i hi => ?_) hzmem (fun i hi => ?_) (n + 1) 0
    (by omega)
  · rcases Nat.lt_succ_iff_lt_or_eq.mp hi with hi | rfl
    · obtain ⟨l, hperm, heq⟩ := hws i hi
      obtain ⟨hw, hmaximal, -⟩ := cast.isWalk_of_perm hperm
      rw [heq]
      exact ⟨by simp, hw, hmaximal⟩
    · rw [hlast]
      exact ⟨by simp [lastWalk], cast.isWalk_lastWalk.1, .inl cast.isWalk_lastWalk.2⟩
  · rcases Nat.lt_succ_iff_lt_or_eq.mp hi with hi | rfl
    · obtain ⟨l, hperm, heq⟩ := hws i hi
      rw [heq]
      exact iff_of_false (cast.isWalk_of_perm hperm).2.2 (by omega)
    · rw [hlast]
      exact iff_of_true cast.isWalk_lastWalk.2 rfl
  · rcases Nat.lt_succ_iff_lt_or_eq.mp (Nat.lt_succ_of_le hi) with hi | rfl
    · exact hz i (by omega)
    · exact hisolated

theorem two_le_card (hblank : ∀ v, g.peerEdges v = ∅) (hmax : 2 ≤ g.maxPeerEdges) {ws : ℕ → List ℕ}
    {n : ℕ} (hws : ∀ i < n, g.IsWalk (ws i)) (hfirst : ws 0 = cast.stuckWalk) (hn : 0 < n) (hg : g.Inv) :
    2 ≤ ((g.afterWalks ws n).peerEdges cast.A).card := by
  have hroom : ∀ v ∈ cast.stuckWalk, (g.peerEdges v).card + 2 ≤ g.maxPeerEdges := by
    intro v _
    rw [hblank v]
    exact hmax
  have hstored : ∀ e ∈ walkEdges cast.stuckWalk, e.2 ∈ (g.afterWalks ws 1).peerEdges e.1 := by
    intro e he
    change e.2 ∈ (g.storeEdges (walkEdges (ws 0))).peerEdges e.1
    rw [hfirst]
    exact stored_of_room cast.isWalk_stuckWalk.1 hroom he
  have hinv := afterWalks_inv hg hws 1 hn
  have hB : cast.B ∈ (g.afterWalks ws n).peerEdges cast.A :=
    mem_afterWalks_mono hws hn le_rfl
      (hinv.symm _ _ (hstored (cast.B, cast.A) List.mem_cons_self))
  have hC : cast.C ∈ (g.afterWalks ws n).peerEdges cast.A :=
    mem_afterWalks_mono hws hn le_rfl
      (hstored (cast.A, cast.C) (List.mem_cons_of_mem _ List.mem_cons_self))
  have hne : cast.B ≠ cast.C := by
    have := cast.public_nodup
    simp only [List.nodup_cons, List.mem_cons, not_or] at this
    exact this.2.1.1
  exact Finset.one_lt_card.mpr ⟨cast.B, hB, cast.C, hC, hne⟩

/-- With three edges a peer, one kind of walk before the last is enough. -/
theorem exists_isolated_of_three {t : ℕ} (hg : g.Inv) (hblank : ∀ v, g.peerEdges v = ∅)
    (hmax : g.maxPeerEdges = 3) (hstores : g.publicPeers.card ≤ g.privatePeers.card) (ht : 0 < t) :
    ∃ c g', g.generateEdges c (t + 1) = .ok g' ∧ g'.peerEdges cast.z = ∅ ∧ g.SameSettings g' := by
  let ws : ℕ → List ℕ := fun i => if i = t then cast.lastWalk else cast.stuckWalk
  have hstuck : ∀ i < t, ws i = cast.stuckWalk := fun i hi => if_neg hi.ne
  have hA := cast.two_le_card hblank (by omega) (fun i hi => (hstuck i hi) ▸ cast.isWalk_stuckWalk.1)
    (hstuck 0 ht) ht hg
  obtain ⟨hok, hz⟩ := cast.ends_isolated hg hblank (by omega) hstores
    (fun i hi => ⟨_, .swap _ _ _, hstuck i hi⟩) (if_pos rfl : ws t = _) (by omega)
  exact ⟨_, _, hok, hz, sameSettings_afterWalks ws (t + 1)⟩

/-- With four, `A` gets its third neighbour from another walk. -/
theorem exists_isolated_of_four {t : ℕ} (hg : g.Inv) (hblank : ∀ v, g.peerEdges v = ∅)
    (hmax : g.maxPeerEdges = 4) (hstores : g.publicPeers.card ≤ g.privatePeers.card) (ht : 0 < t) :
    ∃ c g', g.generateEdges c (t + 2) = .ok g' ∧ g'.peerEdges cast.z = ∅ ∧ g.SameSettings g' := by
  let ws : ℕ → List ℕ := fun i =>
    if i = t + 1 then cast.lastWalk else if i = t then cast.detourWalk else cast.stuckWalk
  have hstuck : ∀ i < t, ws i = cast.stuckWalk := fun i hi => by
    simp only [ws, if_neg (by omega : i ≠ t + 1), if_neg hi.ne]
  have hdetour : ws t = cast.detourWalk := by
    simp only [ws, if_neg (by omega : t ≠ t + 1), if_true]
  have hws : ∀ i < t, g.IsWalk (ws i) := fun i hi => (hstuck i hi) ▸ cast.isWalk_stuckWalk.1
  have hinv := afterWalks_inv hg hws t le_rfl
  have hsame := sameSettings_afterWalks (g := g) ws t
  have htwo := cast.two_le_card hblank (by omega) hws (hstuck 0 ht) ht hg
  -- until then `x` has only its neighbours on the first walk, and `A` is none of them
  have hx : ∀ i ≤ t, ∀ v ∈ (g.afterWalks ws i).peerEdges cast.x, v ∈ walkNbrs cast.stuckWalk cast.x := by
    intro i hi
    induction i with
    | zero =>
      intro v hv
      have hnone : (g.afterWalks ws 0).peerEdges cast.x = ∅ := hblank cast.x
      rw [hnone] at hv
      exact absurd hv (Finset.notMem_empty v)
    | succ i ih =>
      intro v hv
      have hw := (hws i hi).of_sameSettings (sameSettings_afterWalks ws i)
      rcases mem_of_mem_storeEdges hw.validEdges hv with hv | hv
      · exact ih (by omega) v hv
      · rw [hstuck i hi] at hv
        exact mem_walkNbrs.mpr hv
  have hdistinct := cast.nodup_all
  simp only [publicList, privateList, List.cons_append, List.nodup_cons, List.mem_cons, List.mem_append,
    not_or] at hdistinct
  obtain ⟨⟨hAB, hAC, hAR, hAx, -⟩, ⟨hBC, -, hBx, -⟩, ⟨-, hCx, -⟩, -⟩ := hdistinct
  have hAnbr : cast.A ∉ walkNbrs cast.stuckWalk cast.x := by
    have htail : cast.A ∉ cast.C :: cast.restPublic ++ [cast.x] := by
      simp [hAC, hAR, hAx]
    rw [mem_walkNbrs]
    change ¬ ((cast.x, cast.A) ∈ (cast.B, cast.A) :: (cast.A, cast.C) ::
        walkEdges (cast.C :: cast.restPublic ++ [cast.x]) ∨
      (cast.A, cast.x) ∈ (cast.B, cast.A) :: (cast.A, cast.C) ::
        walkEdges (cast.C :: cast.restPublic ++ [cast.x]))
    simp only [List.mem_cons, Prod.mk.injEq]
    rintro ((⟨h, -⟩ | ⟨h, -⟩ | h) | ⟨h, -⟩ | ⟨-, h⟩ | h)
    · exact hBx h.symm
    · exact hAx h.symm
    · exact htail (mem_of_mem_walkEdges h).2
    · exact hAB h
    · exact hCx h.symm
    · exact htail (mem_of_mem_walkEdges h).1
  have hthree : 3 ≤ ((g.afterWalks ws (t + 1)).peerEdges cast.A).card := by
    have hwalk := cast.isWalk_detourWalk.1.of_sameSettings hsame
    have hedges : walkEdges cast.detourWalk =
        walkEdges (cast.B :: cast.C :: cast.restPublic ++ [cast.A]) ++ [(cast.A, cast.x)] :=
      walkEdges_append_pair _ _ _
    have hpre : (g.afterWalks ws t).IsWalk (cast.B :: cast.C :: cast.restPublic ++ [cast.A]) := by
      rw [cast.detourWalk_eq] at hwalk
      exact hwalk.left
    have hxpre : cast.x ∉ cast.B :: cast.C :: cast.restPublic ++ [cast.A] := by
      have hxR : cast.x ∉ cast.restPublic := fun h =>
        cast.disjoint (by simp [publicList, h]) (by simp [privateList] : cast.x ∈ cast.privateList)
      simp [hxR, Ne.symm hBx, Ne.symm hCx, Ne.symm hAx]
    change 3 ≤ (((g.afterWalks ws t).storeEdges (walkEdges (ws t))).peerEdges cast.A).card
    rw [hdetour, hedges, storeEdges_append]
    have hmono : ((g.afterWalks ws t).peerEdges cast.A).card ≤ _ :=
      Finset.card_le_card fun v => mem_storeEdges_of_mem hpre.validEdges
    have hinv' := storeEdges_inv hinv hpre.validEdges
    have hsame' := sameSettings_storeEdges (g := g.afterWalks ws t)
      (walkEdges (cast.B :: cast.C :: cast.restPublic ++ [cast.A]))
    have hxsub : ((g.afterWalks ws t).storeEdges (walkEdges (cast.B :: cast.C :: cast.restPublic ++
        [cast.A]))).peerEdges cast.x ⊆ walkNbrs cast.stuckWalk cast.x := by
      intro v hv
      rcases mem_of_mem_storeEdges hpre.validEdges hv with hv | hv | hv
      · exact hx t le_rfl v hv
      · exact absurd (mem_of_mem_walkEdges hv).1 hxpre
      · exact absurd (mem_of_mem_walkEdges hv).2 hxpre
    have hxcard := (Finset.card_le_card hxsub).trans (card_walkNbrs_le cast.isWalk_stuckWalk.1.nodup _)
    refine (card_storeEdge_of_room (k := 2) hAx ?_ (fun h => hAnbr (hxsub (hinv'.symm _ _ h))) ?_ ?_).1
    · rw [hsame'.max, hsame.max]; omega
    · omega
    · rw [hsame'.max, hsame.max]; omega
  have hperm : ∀ i < t + 1, ∃ l, l.Perm cast.publicList ∧ ws i = l ++ [cast.x] := by
    intro i hi
    rcases Nat.lt_succ_iff_lt_or_eq.mp hi with hi | rfl
    · exact ⟨_, .swap _ _ _, hstuck i hi⟩
    · exact ⟨_, List.perm_append_singleton _ _, hdetour.trans cast.detourWalk_eq⟩
  obtain ⟨hok, hz⟩ := cast.ends_isolated hg hblank (by omega) hstores hperm
    (if_pos rfl : ws (t + 1) = _) (by omega)
  exact ⟨_, _, hok, hz, sameSettings_afterWalks ws (t + 2)⟩

end Cast

theorem exists_three {s : Finset ℕ} (h : 3 ≤ s.card) :
    ∃ a b c rest, (a :: b :: c :: rest).Nodup ∧ (∀ v, v ∈ a :: b :: c :: rest ↔ v ∈ s) ∧
      rest.length + 3 = s.card := by
  have hlen := s.length_toList
  match hlist : s.toList with
  | a :: b :: c :: rest =>
    rw [hlist] at hlen
    refine ⟨a, b, c, rest, hlist ▸ s.nodup_toList, fun v => ?_, by simpa using hlen⟩
    rw [← hlist, Finset.mem_toList]
  | [] | [_] | [_, _] =>
    rw [hlist] at hlen
    simp only [List.length_cons, List.length_nil] at hlen
    omega

theorem exists_cast (hsub : g.privatePeers ⊆ g.peers) (hpub : 3 ≤ g.publicPeers.card)
    (hpriv : g.privatePeers.card = g.publicPeers.card) : Nonempty (g.Cast []) := by
  obtain ⟨A, B, C, R, hnodup, hmem, hlen⟩ := exists_three hpub
  obtain ⟨x, y, z, S, hnodup', hmem', hlen'⟩ := exists_three (hpriv ▸ hpub : 3 ≤ g.privatePeers.card)
  exact ⟨⟨A, B, C, R, x, y, z, S, hnodup, hmem, hnodup', hmem', by omega, by simp, hsub⟩⟩

theorem exists_cast_lead (hsub : g.privatePeers ⊆ g.peers) (hpub : 3 ≤ g.publicPeers.card)
    (hpriv : g.privatePeers.card = g.publicPeers.card + 1) : ∃ v, Nonempty (g.Cast [v]) := by
  obtain ⟨A, B, C, R, hnodup, hmem, hlen⟩ := exists_three hpub
  obtain ⟨x, y, z, S, hnodup', hmem', hlen'⟩ := exists_three (by omega : 3 ≤ g.privatePeers.card)
  match S with
  | [] => simp only [List.length_nil] at hlen'; omega
  | v :: S =>
    simp only [List.length_cons] at hlen'
    exact ⟨v, ⟨⟨A, B, C, R, x, y, z, S, hnodup, hmem, hnodup', hmem', by omega, by simp, hsub⟩⟩⟩

theorem generateEdges_single (c : Choices) (maxTries : ℕ) (hcard : g.peers.card = 1) (hok : g.okPeers = ∅)
    (hfull : g.fullPeers = ∅) : g.generateEdges c maxTries = .ok g := by
  have htry : ∀ i, g.tryEdges c maxTries i = .ok (false, g) := by
    intro i
    have htree : g.generateNewSpanningTree c i = .ok (.complete []) := by
      rw [generateNewSpanningTree, if_neg (Finset.card_pos.mp (by omega)).ne_empty, hcard]
      rfl
    rw [tryEdges, htree]
    exact if_neg (by rw [storeEdges_nil, hok, hfull, hcard]; simp)
  rw [generateEdges]
  induction List.range maxTries with
  | nil => rfl
  | cons i rest ih =>
    rw [tryAll, htry]
    exact ih

end RandomDeploymentGraph

/-! ### The condition -/

namespace RandomDeploymentStrategy

open RandomDeploymentGraph

variable {peers privatePeers : Finset ℕ}

theorem edgeCounts_spec (privatePeers : Finset ℕ) (hcard : 2 ≤ peers.card) :
    (edgeCounts peers privatePeers).1 = 1 ∧ 1 ≤ (edgeCounts peers privatePeers).2.1 ∧
      (edgeCounts peers privatePeers).2.1 ≤ (edgeCounts peers privatePeers).2.2 ∧
      (edgeCounts peers privatePeers).2.2 = if peers.card ≤ 3 then peers.card
        else if (peers \ privatePeers).card < privatePeers.card
          then 3 + privatePeers.card - (peers \ privatePeers).card else 3 := by
  unfold edgeCounts
  rw [if_neg (by omega : ¬ peers.card ≤ 1)]
  by_cases hfew : peers.card ≤ 3
  · rw [if_pos hfew, if_pos hfew]
    exact ⟨rfl, by show 1 ≤ peers.card - 1; omega, Nat.sub_le _ _, rfl⟩
  · rw [if_neg hfew, if_neg hfew]
    refine ⟨rfl, one_le_two, ?_, rfl⟩
    show 2 ≤ if (peers \ privatePeers).card < privatePeers.card
      then 3 + privatePeers.card - (peers \ privatePeers).card else 3
    split_ifs <;> omega

theorem newGraph_eq_ok : newGraph peers privatePeers =
    .ok (.new peers (edgeCounts peers privatePeers).1 (edgeCounts peers privatePeers).2.1
      (edgeCounts peers privatePeers).2.2 privatePeers) := by
  have hbounds : (edgeCounts peers privatePeers).1 ≤ (edgeCounts peers privatePeers).2.1 ∧
      (edgeCounts peers privatePeers).2.1 ≤ (edgeCounts peers privatePeers).2.2 := by
    rcases Nat.lt_or_ge peers.card 2 with hcard | hcard
    · unfold edgeCounts
      rw [if_pos (by omega : peers.card ≤ 1)]
      exact ⟨le_rfl, le_rfl⟩
    · have := edgeCounts_spec privatePeers hcard
      omega
  unfold newGraph
  revert hbounds
  obtain ⟨minPeers, okPeers, maxPeers⟩ := edgeCounts peers privatePeers
  rintro ⟨hmin, hmax⟩
  dsimp only at hmin hmax ⊢
  rw [max_eq_right hmin, max_eq_left hmax, min_eq_left hmin, min_eq_right (hmin.trans hmax),
    if_neg (not_not.mpr rfl), if_neg (not_not.mpr rfl), if_neg (by omega)]

/-- `generate_edges` leaves a graph as expected whenever it returns normally, whatever the random
choices, unless there is a single peer, or there are at least three public peers and either as many
private peers and at least two tries, or one more private peer and at least three tries. -/
theorem generateEdges_safe_iff (hsub : privatePeers ⊆ peers) {maxTries : ℕ} (htries : 1 ≤ maxTries) :
    (∀ g c g', newGraph peers privatePeers = .ok g → g.generateEdges c maxTries = .ok g' → g'.SafeGraph) ↔
      ¬ (peers.card = 1 ∨ (3 ≤ (peers \ privatePeers).card ∧
        ((privatePeers.card = (peers \ privatePeers).card ∧ 2 ≤ maxTries) ∨
          (privatePeers.card = (peers \ privatePeers).card + 1 ∧ 3 ≤ maxTries)))) := by
  have hsplit : (peers \ privatePeers).card + privatePeers.card = peers.card :=
    Finset.card_sdiff_add_card_eq_card hsub
  rw [newGraph_eq_ok]
  generalize hg : RandomDeploymentGraph.new peers (edgeCounts peers privatePeers).1
    (edgeCounts peers privatePeers).2.1 (edgeCounts peers privatePeers).2.2 privatePeers = g
  have hpeers : g.peers = peers := by rw [← hg]; rfl
  have hpriv : g.privatePeers = privatePeers := by rw [← hg]; rfl
  have hpub : g.publicPeers = peers \ privatePeers := by rw [publicPeers, hpeers, hpriv]
  have hmax : g.maxPeerEdges = (edgeCounts peers privatePeers).2.2 := by rw [← hg]; rfl
  have hmin : g.minPeerEdges = (edgeCounts peers privatePeers).1 := by rw [← hg]; rfl
  have hblank : ∀ v, g.peerEdges v = ∅ := fun v => by rw [← hg]; rfl
  have hrun : 2 ≤ peers.card → g.RunInv 0 := by
    intro hcard
    obtain ⟨hone, hle, hle', -⟩ := edgeCounts_spec privatePeers hcard
    rw [← hg]
    exact new_runInv (by omega) (by omega) hle'
  have hsub' : g.privatePeers ⊆ g.peers := by rw [hpriv, hpeers]; exact hsub
  constructor
  · -- each kind of failing input has a run that returns a graph with an isolated peer
    intro hsafe hbad
    have hcontra : ∀ c g' z, g.generateEdges c maxTries = .ok g' → g.SameSettings g' → z ∈ peers →
        g'.peerEdges z = ∅ → 3 ≤ (peers \ privatePeers).card → False := by
      intro c g' z hok hsame hz hempty hthree
      have hmany : 2 ≤ peers.card := by omega
      have h := (hsafe g c g' rfl hok).min_edges (by rw [hsame.peers, hpeers]; exact hmany)
        (by rw [hsame.publicPeers, hpub]; exact Finset.card_pos.mp (by omega)) z
        (by rw [hsame.peers, hpeers]; exact hz)
      rw [hempty, Finset.card_empty, hsame.min, hmin, (edgeCounts_spec privatePeers hmany).1] at h
      omega
    rcases hbad with hone | ⟨hthree, ⟨heq, htwo⟩ | ⟨heq, htries⟩⟩
    · obtain ⟨p, hp⟩ := Finset.card_pos.mp (by omega : 0 < peers.card)
      have hok := generateEdges_single (g := g) (following fun _ => []) maxTries (by rw [hpeers, hone])
        (by rw [← hg]; rfl) (by rw [← hg]; rfl)
      have hmem := ((hsafe g _ g rfl hok).full_iff p).mpr
      have hfull : g.fullPeers = ∅ := by rw [← hg]; rfl
      have hzero : g.maxPeerEdges = 0 := by
        rw [hmax, edgeCounts]
        simp [hone]
      rw [hfull, hpeers, hzero] at hmem
      exact absurd (hmem ⟨hp, Nat.zero_le _⟩) (Finset.notMem_empty p)
    · have hmany : 2 ≤ peers.card := by omega
      obtain ⟨cast⟩ := exists_cast hsub' (by rw [hpub]; exact hthree) (by rw [hpub, hpriv]; exact heq)
      obtain ⟨t, rfl⟩ : ∃ t, maxTries = t + 1 := ⟨maxTries - 1, by omega⟩
      have hmax3 : g.maxPeerEdges = 3 := by
        rw [hmax, (edgeCounts_spec privatePeers hmany).2.2.2, if_neg (by omega), if_neg (by omega)]
      obtain ⟨c, g', hok, hempty, hsame⟩ := cast.exists_isolated_of_three (hrun hmany).inv hblank hmax3
        (by rw [hpub, hpriv]; omega) (by omega : 0 < t)
      have hz : cast.z ∈ peers := hpeers ▸ cast.mem_peers.mp (by simp [Cast.privateList])
      exact hcontra c g' cast.z hok hsame hz hempty hthree
    · have hmany : 2 ≤ peers.card := by omega
      obtain ⟨v, ⟨cast⟩⟩ := exists_cast_lead hsub' (by rw [hpub]; exact hthree)
        (by rw [hpub, hpriv]; exact heq)
      obtain ⟨t, rfl⟩ : ∃ t, maxTries = t + 2 := ⟨maxTries - 2, by omega⟩
      have hmax4 : g.maxPeerEdges = 4 := by
        rw [hmax, (edgeCounts_spec privatePeers hmany).2.2.2, if_neg (by omega), if_pos (by omega)]
        omega
      obtain ⟨c, g', hok, hempty, hsame⟩ := cast.exists_isolated_of_four (hrun hmany).inv hblank hmax4
        (by rw [hpub, hpriv]; omega) (by omega : 0 < t)
      have hz : cast.z ∈ peers := hpeers ▸ cast.mem_peers.mp (by simp [Cast.privateList])
      exact hcontra c g' cast.z hok hsame hz hempty hthree
  · rintro hgood _ c g' heq hok
    cases heq
    rw [generateEdges, List.range_eq_range'] at hok
    obtain ⟨k, rfl⟩ : ∃ k, maxTries = k + 1 := ⟨maxTries - 1, by omega⟩
    rcases Nat.lt_or_ge peers.card 2 with hfew | hmany
    · -- there is no peer to sample
      have hempty : g.peers = ∅ := by
        rw [hpeers]
        exact Finset.card_eq_zero.mp (by omega)
      rw [List.range'_succ, tryAll, tryEdges, generateNewSpanningTree, if_pos hempty] at hok
      cases hok
    · obtain ⟨hone, hle, hle', hbound⟩ := edgeCounts_spec privatePeers hmany
      have htwo : 2 ≤ g.maxPeerEdges := by
        rw [hmax, hbound]
        split_ifs <;> omega
      have hends : g.EndsSpanned (k + 1) := by
        rw [EndsSpanned, hpub, hpriv, hpeers, hmax, hbound]
        split_ifs <;> omega
      obtain ⟨hsame, hfinal⟩ := tryAll_final k 0 (by omega) (hrun hmany) (by rw [hpeers]; exact hmany) htwo
        hsub' hends hok
      exact hfinal.safeGraph (by rw [hsame.min, hmin, hone])

/-- Choices that follow one walk in the first try and another one later. -/
def walkThen (first later : List ℕ) : Choices where
  pick i visited s :=
    let next := ((if i = 0 then first else later)[visited.length]?).getD 0
    if next ∈ s then next else if h : s.Nonempty then s.min' h else 0
  pick_mem i visited s hs := by
    dsimp only
    by_cases hnext : ((if i = 0 then first else later)[visited.length]?).getD 0 ∈ s
    · rw [if_pos hnext]
      exact hnext
    · rw [if_neg hnext, dif_pos hs]
      exact s.min'_mem hs

/-- Two public peers and one try. -/
theorem generateEdges_safe_pair : ∃ g g', newGraph {1, 2} ∅ = .ok g ∧
    g.generateEdges (walkThen [1, 2] []) 1 = .ok g' ∧ g'.SafeGraph := by
  have hrun : ((newGraph {1, 2} ∅).bind fun g => (g.generateEdges (walkThen [1, 2] []) 1).map fun _ => true) =
      .ok true := by
    decide +kernel
  obtain ⟨g, hg, hrun⟩ := Except.bind_eq_ok_iff.mp hrun
  cases hok : g.generateEdges (walkThen [1, 2] []) 1 with
  | error e => rw [hok] at hrun; cases hrun
  | ok g' =>
    exact ⟨g, g', hg, hok,
      (generateEdges_safe_iff (Finset.empty_subset _) le_rfl).mpr (by decide) g _ g' hg hok⟩

/-- With three public and three private peers and two tries, the last walk can leave peer 6 without
an edge. -/
theorem generateEdges_isolates : ¬ ∀ (peers privatePeers : Finset ℕ) (maxTries : ℕ) (g : RandomDeploymentGraph)
    (c : Choices) (g' : RandomDeploymentGraph), privatePeers ⊆ peers → 1 ≤ maxTries →
    newGraph peers privatePeers = .ok g → g.generateEdges c maxTries = .ok g' → g'.SafeGraph := by
  intro hsafe
  have hrun : ((newGraph {1, 2, 3, 4, 5, 6} {4, 5, 6}).bind fun g =>
      (g.generateEdges (walkThen [2, 1, 3, 4] [2, 4, 3, 5, 1, 6]) 2).map fun g' =>
        decide (6 ∈ g'.peers ∧ 2 ≤ g'.peers.card ∧ (g'.publicPeers).card ≠ 0 ∧
          (g'.peerEdges 6).card < g'.minPeerEdges)) = .ok true := by
    decide +kernel
  obtain ⟨g, hg, hrun⟩ := Except.bind_eq_ok_iff.mp hrun
  cases hok : g.generateEdges (walkThen [2, 1, 3, 4] [2, 4, 3, 5, 1, 6]) 2 with
  | error e => rw [hok] at hrun; cases hrun
  | ok g' =>
    rw [hok] at hrun
    obtain ⟨hmem, hmany, hpublic, hfew⟩ := of_decide_eq_true (Except.ok.inj hrun)
    have hmin := (hsafe _ _ 2 g _ g' (by decide) (by decide) hg hok).min_edges hmany
      (Finset.card_ne_zero.mp hpublic) 6 hmem
    omega

end RandomDeploymentStrategy

end Uno
