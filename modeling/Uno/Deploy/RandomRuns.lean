import Uno.Deploy.RandomWalk
import Mathlib.Data.Finset.Image

/-!
# Runs of the random strategy

What a normal return of `generateEdges` leaves. `RunInv` is the invariant of the tries: the
invariant of the graph, at most two edges a peer and try, all public peers connected once anything
is stored, and every peer on an edge once anything is stored when private peers are the minority. A
return in the middle of the tries leaves every peer on an edge and the graph connected (`Final`).

The tries can also end after a complete walk. Its edges may have been dropped because a public peer
was full, and then a private peer may have none. This needs at least three public peers, as many
private peers or one more, and enough tries (`generateEdges_safe_iff`).
-/

namespace Uno

namespace RandomDeploymentGraph

variable {g : RandomDeploymentGraph} {w : List ℕ}

/-- What is expected of the graph of a normal return. -/
structure SafeGraph (g : RandomDeploymentGraph) : Prop where
  symm : ∀ a b, b ∈ g.peerEdges a → a ∈ g.peerEdges b
  irrefl : ∀ a, a ∉ g.peerEdges a
  not_private : ∀ a b, b ∈ g.peerEdges a → a ∉ g.privatePeers ∨ b ∉ g.privatePeers
  degree_le : ∀ a, (g.peerEdges a).card ≤ g.maxPeerEdges
  disjoint : Disjoint g.fullPeers g.okPeers ∧ Disjoint g.fullPeers g.minPeers ∧
    Disjoint g.okPeers g.minPeers
  full_iff : ∀ a, a ∈ g.fullPeers ↔ a ∈ g.peers ∧ g.maxPeerEdges ≤ (g.peerEdges a).card
  ok_iff : ∀ a, a ∈ g.okPeers ↔
    a ∈ g.peers ∧ g.okPeerEdges ≤ (g.peerEdges a).card ∧ (g.peerEdges a).card < g.maxPeerEdges
  min_iff : ∀ a, a ∈ g.minPeers ↔
    a ∈ g.peers ∧ g.minPeerEdges ≤ (g.peerEdges a).card ∧ (g.peerEdges a).card < g.okPeerEdges
  connected : 2 ≤ g.peers.card → g.publicPeers.Nonempty → ∀ a ∈ g.peers, ∀ b ∈ g.peers, g.Reaches a b
  min_edges : 2 ≤ g.peers.card → g.publicPeers.Nonempty →
    ∀ a ∈ g.peers, g.minPeerEdges ≤ (g.peerEdges a).card

/-- Every peer is on an edge and the public peers are connected. -/
structure Final (g : RandomDeploymentGraph) : Prop where
  inv : g.Inv
  nonempty : ∀ p ∈ g.peers, (g.peerEdges p).Nonempty
  linked : ∀ p ∈ g.publicPeers, ∀ q ∈ g.publicPeers, g.Reaches p q

theorem Inv.mem_of_card_pos (hg : g.Inv) {a : ℕ} (h : 0 < (g.peerEdges a).card) : a ∈ g.peers := by
  obtain ⟨b, hb⟩ := Finset.card_pos.mp h
  exact hg.mem a b hb

theorem Final.safeGraph (h : g.Final) (hmin : g.minPeerEdges ≤ 1) : g.SafeGraph := by
  have hg := h.inv
  have hpos := hg.min_pos
  have hle := hg.min_le
  have hle' := hg.ok_le
  refine ⟨hg.symm, hg.irrefl, ?_, hg.degree_le, ⟨?_, ?_, ?_⟩, ?_, ?_, ?_, ?_, ?_⟩
  · intro a b hb
    exact (hg.not_private a b hb).imp (fun h => (Finset.mem_sdiff.mp h).2) fun h => (Finset.mem_sdiff.mp h).2
  · rw [Finset.disjoint_left]
    intro a ha hb
    rw [(hg.classified a).full] at ha
    rw [(hg.classified a).ok] at hb
    omega
  · rw [Finset.disjoint_left]
    intro a ha hb
    rw [(hg.classified a).full] at ha
    rw [(hg.classified a).min] at hb
    omega
  · rw [Finset.disjoint_left]
    intro a ha hb
    rw [(hg.classified a).ok] at ha
    rw [(hg.classified a).min] at hb
    omega
  · intro a
    rw [(hg.classified a).full]
    exact ⟨fun h => ⟨hg.mem_of_card_pos (by omega), h⟩, fun h => h.2⟩
  · intro a
    rw [(hg.classified a).ok]
    exact ⟨fun h => ⟨hg.mem_of_card_pos (by omega), h⟩, fun h => h.2⟩
  · intro a
    rw [(hg.classified a).min]
    exact ⟨fun h => ⟨hg.mem_of_card_pos (by omega), h⟩, fun h => h.2⟩
  · rintro - ⟨r, hr⟩
    -- a private peer reaches the public ones through any of its edges
    have hroot : ∀ a ∈ g.peers, g.Reaches r a := by
      intro a ha
      by_cases hpub : a ∈ g.publicPeers
      · exact h.linked r hr a hpub
      · obtain ⟨b, hb⟩ := h.nonempty a ha
        exact (h.linked r hr b ((hg.not_private a b hb).resolve_left hpub)).tail (hg.symm a b hb)
    exact fun a ha b hb => ((hroot a ha).symm hg).trans (hroot b hb)
  · intro _ _ a ha
    have := (h.nonempty a ha).card_pos
    omega

theorem nonempty_of_testPartial (hg : g.Inv) (h : g.testPartial) :
    ∀ p ∈ g.peers, (g.peerEdges p).Nonempty := by
  have hpos := hg.min_pos
  have hle := hg.min_le
  have hle' := hg.ok_le
  have hdisj : Disjoint g.okPeers g.fullPeers := by
    rw [Finset.disjoint_left]
    intro a ha hb
    rw [(hg.classified a).ok] at ha
    rw [(hg.classified a).full] at hb
    omega
  have hdisj' : Disjoint (g.okPeers ∪ g.fullPeers) g.minPeers := by
    rw [Finset.disjoint_left]
    intro a ha hb
    rw [(hg.classified a).min] at hb
    rw [Finset.mem_union, (hg.classified a).ok, (hg.classified a).full] at ha
    omega
  have hcard : ∀ a ∈ g.okPeers ∪ g.fullPeers ∪ g.minPeers, 0 < (g.peerEdges a).card := by
    intro a ha
    rw [Finset.mem_union, Finset.mem_union, (hg.classified a).ok, (hg.classified a).full,
      (hg.classified a).min] at ha
    omega
  have heq : g.okPeers ∪ g.fullPeers ∪ g.minPeers = g.peers := by
    refine Finset.eq_of_subset_of_card_le (fun a ha => hg.mem_of_card_pos (hcard a ha)) ?_
    rw [Finset.card_union_of_disjoint hdisj', Finset.card_union_of_disjoint hdisj]
    simpa [testPartial] using h
  intro p hp
  rw [← heq] at hp
  exact Finset.card_pos.mp (hcard p hp)

theorem testPartial_of_ok (h : g.okPeers.card + g.fullPeers.card ≥ g.peers.card) : g.testPartial := by
  rw [testPartial, decide_eq_true_eq]
  omega

/-! ### The invariant of the tries -/

structure RunInv (g : RandomDeploymentGraph) (i : ℕ) : Prop where
  inv : g.Inv
  card_le : ∀ x, (g.peerEdges x).card ≤ 2 * i
  linked : (∀ x, g.peerEdges x = ∅) ∨ ∀ p ∈ g.publicPeers, ∀ q ∈ g.publicPeers, g.Reaches p q
  spanned : g.privatePeers.card < g.publicPeers.card →
    (∀ x, g.peerEdges x = ∅) ∨ ∀ p ∈ g.peers, (g.peerEdges p).Nonempty

theorem Reaches.mono {g' : RandomDeploymentGraph} (h : ∀ x y, y ∈ g.peerEdges x → y ∈ g'.peerEdges x)
    {a b : ℕ} (hab : g.Reaches a b) : g'.Reaches a b :=
  Relation.ReflTransGen.mono h _ _ hab

theorem linked_storeEdges (hg : g.Inv) (hmax : 2 ≤ g.maxPeerEdges)
    (hlinked : (∀ x, g.peerEdges x = ∅) ∨ ∀ p ∈ g.publicPeers, ∀ q ∈ g.publicPeers, g.Reaches p q)
    (hw : g.IsWalk w) (hmaximal : g.IsMaximal w) :
    ∀ p ∈ g.publicPeers, ∀ q ∈ g.publicPeers, (g.storeEdges (walkEdges w)).Reaches p q := by
  intro p hp q hq
  rcases hlinked with hblank | hlinked
  · have hroom : ∀ x ∈ w, (g.peerEdges x).card + 2 ≤ g.maxPeerEdges := by
      intro x _
      rw [hblank x]
      exact hmax
    have hsub := hw.publicPeers_subset hmaximal
    exact reaches_of_stored (storeEdges_inv hg hw.validEdges) (fun e he => stored_of_room hw hroom he)
      (List.mem_toFinset.mp (hsub hp)) (List.mem_toFinset.mp (hsub hq))
  · exact (hlinked p hp q hq).mono fun x y h => mem_storeEdges_of_mem hw.validEdges h

theorem nonempty_of_room (hcard : 2 ≤ g.peers.card) (hw : g.IsWalk w) (hlen : w.length = g.peers.card)
    (hg : g.Inv) (hroom : ∀ x ∈ w, (g.peerEdges x).card + 2 ≤ g.maxPeerEdges) :
    ∀ p ∈ g.peers, ((g.storeEdges (walkEdges w)).peerEdges p).Nonempty := by
  intro p hp
  obtain ⟨q, hq⟩ := exists_edge (by omega) (hw.mem_of_length hlen hp)
  rcases hq with hq | hq
  · exact ⟨q, stored_of_room hw hroom hq⟩
  · exact ⟨q, (storeEdges_inv hg hw.validEdges).symm _ _ (stored_of_room hw hroom hq)⟩

theorem nonempty_mono (hw : g.IsWalk w) {p : ℕ} (h : (g.peerEdges p).Nonempty) :
    ((g.storeEdges (walkEdges w)).peerEdges p).Nonempty := by
  obtain ⟨q, hq⟩ := h
  exact ⟨q, mem_storeEdges_of_mem hw.validEdges hq⟩

theorem RunInv.storeEdges {i : ℕ} (h : g.RunInv i) (hcard : 2 ≤ g.peers.card) (hmax : 2 ≤ g.maxPeerEdges)
    (hw : g.IsWalk w) (hmaximal : g.IsMaximal w)
    (hstores : w.length = g.peers.card ∨ g.publicPeers.card ≤ g.privatePeers.card) :
    (g.storeEdges (walkEdges w)).RunInv (i + 1) := by
  have hsame := sameSettings_storeEdges (g := g) (walkEdges w)
  refine ⟨storeEdges_inv h.inv hw.validEdges, fun x => ?_, .inr ?_, fun hminor => .inr ?_⟩
  · have := card_storeEdges_le hw x
    have := h.card_le x
    omega
  · rw [hsame.publicPeers]
    exact linked_storeEdges h.inv hmax h.linked hw hmaximal
  · rw [hsame.privatePeers, hsame.publicPeers] at hminor
    rw [hsame.peers]
    rcases h.spanned hminor with hblank | hspanned
    · refine nonempty_of_room hcard hw (hstores.resolve_right (by omega)) h.inv fun x _ => ?_
      rw [hblank x]
      exact hmax
    · exact fun p hp => nonempty_mono hw (hspanned p hp)

theorem RunInv.succ {i : ℕ} (h : g.RunInv i) : g.RunInv (i + 1) :=
  ⟨h.inv, fun x => (h.card_le x).trans (by omega), h.linked, h.spanned⟩

/-- One try: it returns a final graph, or keeps the invariant; the last one, unless it returns, has
stored a complete walk. -/
theorem tryEdges_spec {i maxTries : ℕ} (h : g.RunInv i) (hcard : 2 ≤ g.peers.card)
    (hmax : 2 ≤ g.maxPeerEdges) {c : Choices} {returned : Bool} {g' : RandomDeploymentGraph}
    (hok : g.tryEdges c maxTries i = .ok (returned, g')) :
    g.SameSettings g' ∧ (returned = true → g'.Final) ∧ (returned = false → g'.RunInv (i + 1)) ∧
      (returned = false → ¬ i + 1 < maxTries → ∃ w, g.IsWalk w ∧ w.length = g.peers.card ∧
        g' = g.storeEdges (walkEdges w)) := by
  obtain ⟨w, hw, hmaximal, -, htree⟩ := generateNewSpanningTree_spec (g := g) c i
    (Finset.card_pos.mp (by omega))
  have hsame := sameSettings_storeEdges (g := g) (walkEdges w)
  have hfinal : (g.storeEdges (walkEdges w)).testPartial → (g.storeEdges (walkEdges w)).Final := by
    intro htest
    have hinv := storeEdges_inv h.inv hw.validEdges
    refine ⟨hinv, nonempty_of_testPartial hinv htest, ?_⟩
    rw [hsame.publicPeers]
    exact linked_storeEdges h.inv hmax h.linked hw hmaximal
  rw [tryEdges, htree, treeOf] at hok
  by_cases hlen : w.length = g.peers.card
  · have hnext := h.storeEdges hcard hmax hw hmaximal (.inl hlen)
    rw [if_pos hlen] at hok
    simp only [Except.ok_bind] at hok
    split_ifs at hok with hall
    · have htest := testPartial_of_ok hall
      simp only [Except.bind_eq_ok_iff] at hok
      obtain ⟨-, -, -, -, -, -, hok⟩ := hok
      cases hok
      exact ⟨hsame, fun _ => hfinal htest, by simp, by simp⟩
    · cases hok
      exact ⟨hsame, by simp, fun _ => hnext, fun _ _ => ⟨w, hw, hlen, rfl⟩⟩
  · rw [if_neg hlen] at hok
    simp only [Except.ok_bind] at hok
    by_cases hstores : g.privatePeers.card ≥ g.publicPeers.card
    · have hnext := h.storeEdges hcard hmax hw hmaximal (.inr hstores)
      simp only [hstores, if_true, true_and] at hok
      split_ifs at hok with htest hmore
      · cases hok
        exact ⟨hsame, fun _ => hfinal htest, by simp, by simp⟩
      · cases hok
        exact ⟨hsame, by simp, fun _ => hnext, fun _ hlast => absurd hmore hlast⟩
    · simp only [hstores, if_false, false_and] at hok
      split_ifs at hok with hmore htest
      · cases hok
        exact ⟨.refl g, by simp, fun _ => h.succ, fun _ hlast => absurd hmore hlast⟩
      · cases hok
        have hnonempty := nonempty_of_testPartial h.inv htest
        refine ⟨.refl g, fun _ => ⟨h.inv, hnonempty, ?_⟩, by simp, by simp⟩
        refine h.linked.resolve_left fun hblank => ?_
        obtain ⟨p, hp⟩ := Finset.card_pos.mp (by omega : 0 < g.peers.card)
        have := hnonempty p hp
        rw [hblank p] at this
        exact Finset.not_nonempty_empty this

/-! ### The end of the tries -/

theorem IsWalk.length_filter (hw : g.IsWalk w) (hlen : w.length = g.peers.card)
    (hsub : g.privatePeers ⊆ g.peers) :
    (w.filter (· ∈ g.publicPeers)).length = g.publicPeers.card ∧
      (w.filter (· ∉ g.publicPeers)).length = g.privatePeers.card := by
  have hcount : ∀ (p : ℕ → Bool) (s : Finset ℕ), (∀ x, (x ∈ g.peers ∧ p x) ↔ x ∈ s) →
      (w.filter p).length = s.card := by
    intro p s hs
    rw [← List.toFinset_card_of_nodup (hw.nodup.filter _)]
    congr 1
    ext x
    rw [List.mem_toFinset, List.mem_filter, ← hs]
    exact and_congr_left fun _ => ⟨hw.mem x, hw.mem_of_length hlen⟩
  refine ⟨hcount _ _ fun x => ?_, hcount _ _ fun x => ?_⟩
  · simp [publicPeers]
  · simp only [publicPeers, decide_eq_true_eq, Finset.mem_sdiff]
    constructor
    · rintro ⟨hx, hnot⟩
      by_contra hpriv
      exact hnot ⟨hx, hpriv⟩
    · exact fun hx => ⟨hsub hx, fun h => h.2 hx⟩

theorem nonempty_storeEdge (hg : g.Inv) (hfew : g.peers.card ≤ g.maxPeerEdges + 1) {a b : ℕ}
    (ha : a ∈ g.peers) (hb : b ∈ g.peers) (hne : a ≠ b) :
    ((g.storeEdge a b).peerEdges a).Nonempty ∧ ((g.storeEdge a b).peerEdges b).Nonempty := by
  have hpos : 0 < g.maxPeerEdges := lt_of_lt_of_le hg.min_pos (hg.min_le.trans hg.ok_le)
  -- a full peer is adjacent to every other
  have hfull : ∀ a b, a ∈ g.peers → b ∈ g.peers → a ≠ b → ¬ (g.peerEdges a).card < g.maxPeerEdges →
      b ∈ g.peerEdges a := by
    intro a b ha hb hne hfull
    by_contra hnot
    have hsub : g.peerEdges a ⊆ (g.peers.erase a).erase b := by
      intro x hx
      refine Finset.mem_erase.mpr ⟨?_, Finset.mem_erase.mpr ⟨?_, hg.mem x a (hg.symm a x hx)⟩⟩
      · rintro rfl; exact hnot hx
      · rintro rfl; exact hg.irrefl x hx
    have hcard := Finset.card_le_card hsub
    rw [Finset.card_erase_of_mem (Finset.mem_erase.mpr ⟨hne.symm, hb⟩), Finset.card_erase_of_mem ha] at hcard
    have := Finset.card_pos.mpr ⟨a, ha⟩
    omega
  by_cases hroom : (g.peerEdges a).card < g.maxPeerEdges ∧ (g.peerEdges b).card < g.maxPeerEdges
  · exact ⟨⟨b, (mem_storeEdge hne a b).mpr (.inr ⟨hroom.1, hroom.2, .inl ⟨rfl, rfl⟩⟩)⟩,
      ⟨a, (mem_storeEdge hne b a).mpr (.inr ⟨hroom.1, hroom.2, .inr ⟨rfl, rfl⟩⟩)⟩⟩
  · have hab : b ∈ g.peerEdges a := by
      rcases not_and_or.mp hroom with h | h
      · exact hfull a b ha hb hne h
      · exact hg.symm b a (hfull b a hb ha hne.symm h)
    exact ⟨⟨b, mem_storeEdge_of_mem hne hab⟩, ⟨a, mem_storeEdge_of_mem hne (hg.symm a b hab)⟩⟩

theorem nonempty_storeEdges (hg : g.Inv) (hfew : g.peers.card ≤ g.maxPeerEdges + 1)
    {edges : List (ℕ × ℕ)} (hvalid : g.ValidEdges edges) :
    ∀ e ∈ edges, ((g.storeEdges edges).peerEdges e.1).Nonempty ∧
      ((g.storeEdges edges).peerEdges e.2).Nonempty := by
  induction edges generalizing g with
  | nil => simp
  | cons e rest ih =>
    obtain ⟨ha, hb, hne, hpub⟩ := hvalid e List.mem_cons_self
    have hsame := sameSettings_storeEdge (g := g) (a := e.1) (b := e.2)
    have hrest : (g.storeEdge e.1 e.2).ValidEdges rest :=
      ValidEdges.of_sameSettings (fun e he => hvalid e (List.mem_cons_of_mem _ he)) hsame
    intro f hf
    rcases List.mem_cons.mp hf with rfl | hf
    · obtain ⟨⟨x, hx⟩, ⟨y, hy⟩⟩ := nonempty_storeEdge hg hfew ha hb hne
      exact ⟨⟨x, mem_storeEdges_of_mem hrest hx⟩, ⟨y, mem_storeEdges_of_mem hrest hy⟩⟩
    · refine ih (storeEdge_inv hg ha hb hne hpub) ?_ hrest f hf
      rw [hsame.peers, hsame.max]
      exact hfew

/-- When the tries cannot end with an isolated peer. -/
def EndsSpanned (g : RandomDeploymentGraph) (maxTries : ℕ) : Prop :=
  g.privatePeers.card < g.publicPeers.card ∨ g.publicPeers.card + 2 ≤ g.privatePeers.card ∨
    g.peers.card ≤ g.maxPeerEdges + 1 ∨ 2 * maxTries ≤ g.maxPeerEdges

theorem final_of_complete {i maxTries : ℕ} (h : g.RunInv i) (hcard : 2 ≤ g.peers.card)
    (hmax : 2 ≤ g.maxPeerEdges) (hsub : g.privatePeers ⊆ g.peers) (hlast : i + 1 = maxTries)
    (hends : g.EndsSpanned maxTries) (hw : g.IsWalk w) (hlen : w.length = g.peers.card) :
    (g.storeEdges (walkEdges w)).Final := by
  have hsame := sameSettings_storeEdges (g := g) (walkEdges w)
  refine ⟨storeEdges_inv h.inv hw.validEdges, ?_, ?_⟩
  · rw [hsame.peers]
    rcases hends with hminor | hmajor | hfew | htries
    · rcases h.spanned hminor with hblank | hspanned
      · refine nonempty_of_room hcard hw hlen h.inv fun x _ => ?_
        rw [hblank x]
        exact hmax
      · exact fun p hp => nonempty_mono hw (hspanned p hp)
    · obtain ⟨hpub, hpriv⟩ := hw.length_filter hlen hsub
      have := hw.card_private_le.1
      omega
    · intro p hp
      obtain ⟨q, hq⟩ := exists_edge (by omega) (hw.mem_of_length hlen hp)
      rcases hq with hq | hq
      · exact (nonempty_storeEdges h.inv hfew hw.validEdges _ hq).1
      · exact (nonempty_storeEdges h.inv hfew hw.validEdges _ hq).2
    · refine nonempty_of_room hcard hw hlen h.inv fun x _ => ?_
      have := h.card_le x
      omega
  · rw [hsame.publicPeers]
    exact linked_storeEdges h.inv hmax h.linked hw (.inl hlen)

theorem tryAll_final {c : Choices} {maxTries : ℕ} (k i : ℕ) (hk : i + (k + 1) = maxTries)
    {g g' : RandomDeploymentGraph} (h : g.RunInv i) (hcard : 2 ≤ g.peers.card)
    (hmax : 2 ≤ g.maxPeerEdges) (hsub : g.privatePeers ⊆ g.peers) (hends : g.EndsSpanned maxTries)
    (hok : tryAll c maxTries (List.range' i (k + 1)) g = .ok g') : g.SameSettings g' ∧ g'.Final := by
  induction k generalizing i g with
  | zero =>
    rw [List.range'_succ, tryAll, Except.bind_eq_ok_iff] at hok
    obtain ⟨⟨returned, g₁⟩, htry, hok⟩ := hok
    obtain ⟨hsame, hreturn, -, hend⟩ := tryEdges_spec h hcard hmax htry
    cases returned with
    | true =>
      cases hok
      exact ⟨hsame, hreturn rfl⟩
    | false =>
      cases hok
      obtain ⟨w, hw, hlen, rfl⟩ := hend rfl (by omega)
      exact ⟨hsame, final_of_complete h hcard hmax hsub (by omega) hends hw hlen⟩
  | succ k ih =>
    rw [List.range'_succ, tryAll, Except.bind_eq_ok_iff] at hok
    obtain ⟨⟨returned, g₁⟩, htry, hok⟩ := hok
    obtain ⟨hsame, hreturn, hnext, -⟩ := tryEdges_spec h hcard hmax htry
    cases returned with
    | true =>
      cases hok
      exact ⟨hsame, hreturn rfl⟩
    | false =>
      have hends' : g₁.EndsSpanned maxTries := by
        rw [EndsSpanned, hsame.publicPeers, hsame.privatePeers, hsame.peers, hsame.max]
        exact hends
      obtain ⟨hsame', hfinal⟩ := ih (i + 1) (by omega) (hnext rfl) (by rw [hsame.peers]; exact hcard)
        (by rw [hsame.max]; exact hmax) (by rw [hsame.peers, hsame.privatePeers]; exact hsub) hends' hok
      exact ⟨hsame.trans hsame', hfinal⟩

theorem new_runInv {peers privatePeers : Finset ℕ} {min ok max : ℕ} (hpos : 0 < min) (hle : min ≤ ok)
    (hle' : ok ≤ max) : (new peers min ok max privatePeers).RunInv 0 := by
  refine ⟨⟨hpos, hle, hle', ?_, ?_, ?_, ?_, ?_, fun a => ⟨?_, ?_, ?_⟩⟩, ?_, .inl fun _ => rfl,
    fun _ => .inl fun _ => rfl⟩ <;> simp [new] <;> omega

end RandomDeploymentGraph

end Uno
