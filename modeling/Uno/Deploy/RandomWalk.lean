import Uno.Deploy.Random
import Mathlib.Data.List.Chain

/-!
# Walks over the peers

The spanning trees of the random strategy are walks: paths that visit each peer at most once and
never step from a private peer to another (`IsWalk`). A walk that is not complete is stuck at a
private peer, so it has visited all public peers (`generateNewSpanningTree_spec`), and every walk
that is complete or stuck can be chosen (`generateNewSpanningTree_following`).

Storing a walk adds at most two edges to each peer, and all of its edges if every peer has room for
two (`stored_of_room`).
-/

namespace Uno

namespace RandomDeploymentGraph

variable {g : RandomDeploymentGraph} {w : List ℕ}

/-! ### Storing a list of edges -/

/-- Edges between different peers, at least one of them public. -/
def ValidEdges (g : RandomDeploymentGraph) (edges : List (ℕ × ℕ)) : Prop :=
  ∀ e ∈ edges, e.1 ∈ g.peers ∧ e.2 ∈ g.peers ∧ e.1 ≠ e.2 ∧ (e.1 ∈ g.publicPeers ∨ e.2 ∈ g.publicPeers)

theorem ValidEdges.of_sameSettings {g' : RandomDeploymentGraph} {edges : List (ℕ × ℕ)}
    (h : g.ValidEdges edges) (hsame : g.SameSettings g') : g'.ValidEdges edges := by
  intro e he
  rw [hsame.peers, hsame.publicPeers]
  exact h e he

@[simp] theorem storeEdges_nil : g.storeEdges [] = g := rfl

@[simp] theorem storeEdges_cons (e : ℕ × ℕ) (edges : List (ℕ × ℕ)) :
    g.storeEdges (e :: edges) = (g.storeEdge e.1 e.2).storeEdges edges := rfl

theorem storeEdges_append (edges edges' : List (ℕ × ℕ)) :
    g.storeEdges (edges ++ edges') = (g.storeEdges edges).storeEdges edges' :=
  List.foldl_append

theorem sameSettings_storeEdges (edges : List (ℕ × ℕ)) : g.SameSettings (g.storeEdges edges) := by
  induction edges generalizing g with
  | nil => exact .refl g
  | cons e rest ih => exact sameSettings_storeEdge.trans ih

theorem storeEdges_inv (hg : g.Inv) {edges : List (ℕ × ℕ)} (h : g.ValidEdges edges) :
    (g.storeEdges edges).Inv := by
  induction edges generalizing g with
  | nil => exact hg
  | cons e rest ih =>
    obtain ⟨ha, hb, hne, hpub⟩ := h e List.mem_cons_self
    refine ih (storeEdge_inv hg ha hb hne hpub) ?_
    exact ValidEdges.of_sameSettings (fun e he => h e (List.mem_cons_of_mem _ he)) sameSettings_storeEdge

theorem mem_storeEdge_of_mem {a b x y : ℕ} (hne : a ≠ b) (h : y ∈ g.peerEdges x) :
    y ∈ (g.storeEdge a b).peerEdges x :=
  (mem_storeEdge hne x y).mpr (.inl h)

theorem mem_storeEdges_of_mem {edges : List (ℕ × ℕ)} (h : g.ValidEdges edges) {x y : ℕ}
    (hy : y ∈ g.peerEdges x) : y ∈ (g.storeEdges edges).peerEdges x := by
  induction edges generalizing g with
  | nil => exact hy
  | cons e rest ih =>
    have hne := (h e List.mem_cons_self).2.2.1
    refine ih ?_ (mem_storeEdge_of_mem hne hy)
    exact ValidEdges.of_sameSettings (fun e he => h e (List.mem_cons_of_mem _ he)) sameSettings_storeEdge

theorem mem_of_mem_storeEdges {edges : List (ℕ × ℕ)} (h : g.ValidEdges edges) {x y : ℕ}
    (hy : y ∈ (g.storeEdges edges).peerEdges x) : y ∈ g.peerEdges x ∨ (x, y) ∈ edges ∨ (y, x) ∈ edges := by
  induction edges generalizing g with
  | nil => exact .inl hy
  | cons e rest ih =>
    have hne := (h e List.mem_cons_self).2.2.1
    have hrest : (g.storeEdge e.1 e.2).ValidEdges rest :=
      ValidEdges.of_sameSettings (fun e he => h e (List.mem_cons_of_mem _ he)) sameSettings_storeEdge
    rcases ih hrest hy with hy | hy | hy
    · rcases (mem_storeEdge hne x y).mp hy with hy | ⟨-, -, ⟨rfl, rfl⟩ | ⟨rfl, rfl⟩⟩
      · exact .inl hy
      · exact .inr (.inl List.mem_cons_self)
      · exact .inr (.inr List.mem_cons_self)
    · exact .inr (.inl (List.mem_cons_of_mem _ hy))
    · exact .inr (.inr (List.mem_cons_of_mem _ hy))

/-! ### Walks -/

/-- The edges of a walk. -/
def walkEdges (w : List ℕ) : List (ℕ × ℕ) := w.zip w.tail

@[simp] theorem walkEdges_nil : walkEdges [] = [] := rfl

@[simp] theorem walkEdges_singleton (x : ℕ) : walkEdges [x] = [] := rfl

@[simp] theorem walkEdges_cons_cons (x y : ℕ) (rest : List ℕ) :
    walkEdges (x :: y :: rest) = (x, y) :: walkEdges (y :: rest) := rfl

theorem walkEdges_append_pair (w : List ℕ) (x y : ℕ) :
    walkEdges (w ++ [x, y]) = walkEdges (w ++ [x]) ++ [(x, y)] := by
  induction w with
  | nil => rfl
  | cons v rest ih =>
    cases rest with
    | nil => rfl
    | cons u rest =>
      simp only [List.cons_append, walkEdges_cons_cons] at ih ⊢
      rw [ih]

theorem mem_of_mem_walkEdges {x y : ℕ} (h : (x, y) ∈ walkEdges w) : x ∈ w ∧ y ∈ w :=
  ⟨(List.of_mem_zip h).1, List.mem_of_mem_tail (List.of_mem_zip h).2⟩

/-- A path over peers in which private peers are not adjacent. -/
structure IsWalk (g : RandomDeploymentGraph) (w : List ℕ) : Prop where
  nodup : w.Nodup
  mem : ∀ x ∈ w, x ∈ g.peers
  chain : w.IsChain fun a b => a ∈ g.publicPeers ∨ b ∈ g.publicPeers

/-- All public peers are visited and the last peer is private, or all peers are visited. -/
def IsMaximal (g : RandomDeploymentGraph) (w : List ℕ) : Prop :=
  w.length = g.peers.card ∨
    (w.length < g.peers.card ∧ g.publicPeers ⊆ w.toFinset ∧ ∃ init last, w = init ++ [last] ∧
      last ∉ g.publicPeers)

theorem IsWalk.of_sameSettings {g' : RandomDeploymentGraph} (h : g.IsWalk w) (hsame : g.SameSettings g') :
    g'.IsWalk w := by
  refine ⟨h.nodup, ?_, ?_⟩
  · rw [hsame.peers]; exact h.mem
  · rw [hsame.publicPeers]; exact h.chain

theorem IsWalk.tail {x : ℕ} (h : g.IsWalk (x :: w)) : g.IsWalk w :=
  ⟨(List.nodup_cons.mp h.nodup).2, fun y hy => h.mem y (List.mem_cons_of_mem _ hy), h.chain.tail⟩

theorem IsWalk.left {w' : List ℕ} (h : g.IsWalk (w ++ w')) : g.IsWalk w :=
  ⟨h.nodup.of_append_left, fun y hy => h.mem y (List.mem_append_left _ hy), h.chain.left_of_append⟩

theorem IsWalk.validEdges (h : g.IsWalk w) : g.ValidEdges (walkEdges w) := by
  induction w with
  | nil => simp [ValidEdges]
  | cons x rest ih =>
    cases rest with
    | nil => simp [ValidEdges]
    | cons y rest =>
      intro e he
      rw [walkEdges_cons_cons, List.mem_cons] at he
      rcases he with rfl | he
      · have hne : x ≠ y := by
          rintro rfl
          exact (List.nodup_cons.mp h.nodup).1 List.mem_cons_self
        exact ⟨h.mem x (by simp), h.mem y (by simp), hne, (List.isChain_cons_cons.mp h.chain).1⟩
      · exact ih h.tail e he

theorem IsWalk.mem_of_length (h : g.IsWalk w) (hlen : w.length = g.peers.card) {x : ℕ}
    (hx : x ∈ g.peers) : x ∈ w := by
  have hsub : w.toFinset ⊆ g.peers := fun y hy => h.mem y (List.mem_toFinset.mp hy)
  have hcard : g.peers.card ≤ w.toFinset.card := by
    rw [List.toFinset_card_of_nodup h.nodup, hlen]
  rw [← List.mem_toFinset, Finset.eq_of_subset_of_card_le hsub hcard]
  exact hx

theorem IsWalk.publicPeers_subset (h : g.IsWalk w) (hmax : g.IsMaximal w) : g.publicPeers ⊆ w.toFinset := by
  rcases hmax with hlen | ⟨-, hsub, -⟩
  · intro x hx
    exact List.mem_toFinset.mpr (h.mem_of_length hlen (Finset.mem_sdiff.mp hx).1)
  · exact hsub

theorem IsWalk.card_private_le (h : g.IsWalk w) :
    (w.filter (· ∉ g.publicPeers)).length ≤ (w.filter (· ∈ g.publicPeers)).length + 1 ∧
      (∀ x rest, w = x :: rest → x ∈ g.publicPeers →
        (w.filter (· ∉ g.publicPeers)).length ≤ (w.filter (· ∈ g.publicPeers)).length) := by
  induction w with
  | nil => simp
  | cons x rest ih =>
    obtain ⟨ihall, ihpub⟩ := ih h.tail
    by_cases hx : x ∈ g.publicPeers
    · have hle : (rest.filter (· ∉ g.publicPeers)).length ≤ (rest.filter (· ∈ g.publicPeers)).length + 1 :=
        ihall
      simp only [List.filter_cons, hx, not_true_eq_false, decide_false, decide_true, if_true,
        Bool.false_eq_true, if_false, List.length_cons]
      exact ⟨by omega, fun _ _ _ _ => by omega⟩
    · have hle : (rest.filter (· ∉ g.publicPeers)).length ≤ (rest.filter (· ∈ g.publicPeers)).length := by
        cases rest with
        | nil => simp
        | cons y rest =>
          exact ihpub y rest rfl ((List.isChain_cons_cons.mp h.chain).1.resolve_left hx)
      simp only [List.filter_cons, hx, not_false_eq_true, decide_false, decide_true, if_true,
        Bool.false_eq_true, if_false, List.length_cons]
      refine ⟨by omega, fun y rest' heq hy => ?_⟩
      obtain ⟨rfl, -⟩ := List.cons.inj heq
      exact absurd hy hx

/-- The neighbours of a peer on a walk. -/
def walkNbrs (w : List ℕ) (x : ℕ) : Finset ℕ :=
  ((walkEdges w).filter fun e => e.1 = x).toFinset.image Prod.snd ∪
    ((walkEdges w).filter fun e => e.2 = x).toFinset.image Prod.fst

theorem mem_walkNbrs {x y : ℕ} : y ∈ walkNbrs w x ↔ (x, y) ∈ walkEdges w ∨ (y, x) ∈ walkEdges w := by
  simp [walkNbrs]

theorem walkEdges_fst_sublist (w : List ℕ) : ((walkEdges w).map Prod.fst).Sublist w := by
  induction w with
  | nil => exact .slnil
  | cons x rest ih =>
    cases rest with
    | nil => exact List.nil_sublist _
    | cons y rest => exact ih.cons_cons x

theorem card_walkNbrs_le (hw : w.Nodup) (x : ℕ) : (walkNbrs w x).card ≤ 2 := by
  have hone : ∀ {α : Type} [DecidableEq α] (l : List (ℕ × ℕ)) (key : ℕ × ℕ → ℕ) (f : ℕ × ℕ → α),
      (l.map key).Nodup → ((l.filter fun e => key e = x).toFinset.image f).card ≤ 1 := by
    intro α _ l key f hl
    refine Finset.card_image_le.trans (Finset.card_le_one.mpr fun a ha b hb => ?_)
    simp only [List.mem_toFinset, List.mem_filter, decide_eq_true_eq] at ha hb
    exact List.inj_on_of_nodup_map hl ha.1 hb.1 (ha.2.trans hb.2.symm)
  have hfst : ((walkEdges w).map Prod.fst).Nodup := hw.sublist (walkEdges_fst_sublist w)
  have hsnd : ((walkEdges w).map Prod.snd).Nodup := by
    rw [walkEdges, List.map_snd_zip (by rw [List.length_tail]; omega)]
    exact hw.sublist (List.tail_sublist w)
  calc (walkNbrs w x).card ≤ _ := Finset.card_union_le _ _
    _ ≤ 1 + 1 := Nat.add_le_add (hone _ Prod.fst Prod.snd hfst) (hone _ Prod.snd Prod.fst hsnd)

/-! ### Storing a walk -/

theorem storeEdge_peerEdges_subset {a b : ℕ} (hne : a ≠ b) (x : ℕ) :
    (x ≠ a → x ≠ b → (g.storeEdge a b).peerEdges x = g.peerEdges x) ∧
      (g.storeEdge a b).peerEdges b ⊆ insert a (g.peerEdges b) := by
  refine ⟨fun ha hb => ?_, fun y hy => ?_⟩
  · ext y
    rw [mem_storeEdge hne]
    simp [ha, hb]
  · rcases (mem_storeEdge hne b y).mp hy with hy | ⟨-, -, ⟨h, -⟩ | ⟨-, rfl⟩⟩
    · exact Finset.mem_insert_of_mem hy
    · exact absurd h.symm hne
    · exact Finset.mem_insert_self _ _

theorem stored_of_room_cons {x : ℕ} {rest : List ℕ} (hw : g.IsWalk (x :: rest))
    (hx : (g.peerEdges x).card + 1 ≤ g.maxPeerEdges)
    (hrest : ∀ v ∈ rest, (g.peerEdges v).card + 2 ≤ g.maxPeerEdges) {e : ℕ × ℕ}
    (he : e ∈ walkEdges (x :: rest)) :
    e.2 ∈ (g.storeEdges (walkEdges (x :: rest))).peerEdges e.1 := by
  induction rest generalizing g x with
  | nil => simp at he
  | cons y rest ih =>
    have hy := hrest y List.mem_cons_self
    obtain ⟨hxr, hyr⟩ := List.nodup_cons.mp hw.nodup
    have hne : x ≠ y := fun h => hxr (h ▸ List.mem_cons_self)
    have hsame := sameSettings_storeEdge (g := g) (a := x) (b := y)
    have hw' : (g.storeEdge x y).IsWalk (y :: rest) := hw.tail.of_sameSettings hsame
    rw [walkEdges_cons_cons, List.mem_cons] at he
    rw [walkEdges_cons_cons, storeEdges_cons]
    rcases he with rfl | he
    · refine mem_storeEdges_of_mem hw'.validEdges ((mem_storeEdge hne x y).mpr (.inr ?_))
      exact ⟨by omega, by omega, .inl ⟨rfl, rfl⟩⟩
    · refine ih hw' ?_ (fun v hv => ?_) he
      · rw [hsame.max]
        calc ((g.storeEdge x y).peerEdges y).card + 1 ≤ (insert x (g.peerEdges y)).card + 1 :=
              Nat.add_le_add_right (Finset.card_le_card (storeEdge_peerEdges_subset hne x).2) 1
          _ ≤ (g.peerEdges y).card + 2 := Nat.add_le_add_right (Finset.card_insert_le _ _) 1
          _ ≤ g.maxPeerEdges := hy
      · have hvx : v ≠ x := fun h => hxr (h ▸ List.mem_cons_of_mem _ hv)
        have hvy : v ≠ y := fun h => (List.nodup_cons.mp hyr).1 (h ▸ hv)
        rw [hsame.max, (storeEdge_peerEdges_subset hne v).1 hvx hvy]
        exact hrest v (List.mem_cons_of_mem _ hv)

theorem stored_of_room (hw : g.IsWalk w) (hroom : ∀ x ∈ w, (g.peerEdges x).card + 2 ≤ g.maxPeerEdges)
    {e : ℕ × ℕ} (he : e ∈ walkEdges w) : e.2 ∈ (g.storeEdges (walkEdges w)).peerEdges e.1 := by
  cases w with
  | nil => simp at he
  | cons x rest =>
    have hx := hroom x List.mem_cons_self
    exact stored_of_room_cons hw (by omega) (fun v hv => hroom v (List.mem_cons_of_mem _ hv)) he

theorem card_storeEdges_le (hw : g.IsWalk w) (x : ℕ) :
    ((g.storeEdges (walkEdges w)).peerEdges x).card ≤ (g.peerEdges x).card + 2 := by
  have hsub : (g.storeEdges (walkEdges w)).peerEdges x ⊆ g.peerEdges x ∪ walkNbrs w x := by
    intro y hy
    rw [Finset.mem_union, mem_walkNbrs]
    exact mem_of_mem_storeEdges hw.validEdges hy
  calc _ ≤ (g.peerEdges x ∪ walkNbrs w x).card := Finset.card_le_card hsub
    _ ≤ (g.peerEdges x).card + (walkNbrs w x).card := Finset.card_union_le _ _
    _ ≤ (g.peerEdges x).card + 2 := Nat.add_le_add_left (card_walkNbrs_le hw.nodup x) _

/-- A chain of edges leads from `a` to `b`. -/
def Reaches (g : RandomDeploymentGraph) (a b : ℕ) : Prop :=
  Relation.ReflTransGen (fun x y => y ∈ g.peerEdges x) a b

theorem Reaches.symm (hg : g.Inv) {a b : ℕ} (h : g.Reaches a b) : g.Reaches b a := by
  have : Std.Symm fun x y => y ∈ g.peerEdges x := ⟨hg.symm⟩
  exact (Relation.ReflTransGen.stdSymm).symm _ _ h

theorem reaches_of_stored (hg : g.Inv) (hstored : ∀ e ∈ walkEdges w, e.2 ∈ g.peerEdges e.1) {a b : ℕ}
    (ha : a ∈ w) (hb : b ∈ w) : g.Reaches a b := by
  have hhead : ∀ x rest, w = x :: rest → ∀ v ∈ w, g.Reaches x v := by
    clear ha hb
    induction w with
    | nil => intro x rest h; cases h
    | cons y rest ih =>
      rintro x rest' heq v hv
      obtain ⟨rfl, rfl⟩ := List.cons.inj heq
      rcases List.mem_cons.mp hv with rfl | hv
      · exact .refl
      · cases rest with
        | nil => simp at hv
        | cons z rest =>
          have hyz : z ∈ g.peerEdges y := hstored (y, z) List.mem_cons_self
          exact .head hyz (ih (fun e he => hstored e (List.mem_cons_of_mem _ he)) z rest rfl v hv)
  cases w with
  | nil => simp at ha
  | cons x rest =>
    exact (Reaches.symm hg (hhead x rest rfl a ha)).trans (hhead x rest rfl b hb)

theorem exists_edge (hlen : 2 ≤ w.length) {x : ℕ} (hx : x ∈ w) :
    ∃ y, (x, y) ∈ walkEdges w ∨ (y, x) ∈ walkEdges w := by
  induction w with
  | nil => simp at hx
  | cons a rest ih =>
    cases rest with
    | nil => simp at hlen
    | cons b rest =>
      rcases List.mem_cons.mp hx with rfl | hx
      · exact ⟨b, .inl List.mem_cons_self⟩
      · cases rest with
        | nil =>
          rw [List.mem_singleton] at hx
          exact ⟨a, .inr (by simp [hx])⟩
        | cons c rest =>
          obtain ⟨y, hy⟩ := ih (by simp) hx
          exact ⟨y, hy.imp (List.mem_cons_of_mem _) (List.mem_cons_of_mem _)⟩

/-! ### Generating a walk -/

/-- The outcome of a maximal walk. -/
def treeOf (g : RandomDeploymentGraph) (w : List ℕ) : SpanTree :=
  if w.length = g.peers.card then .complete (walkEdges w) else .incomplete (walkEdges w)

theorem IsWalk.length_le (h : g.IsWalk w) : w.length ≤ g.peers.card := by
  rw [← List.toFinset_card_of_nodup h.nodup]
  exact Finset.card_le_card fun x hx => h.mem x (List.mem_toFinset.mp hx)

theorem IsWalk.snoc {init : List ℕ} {current other : ℕ} (h : g.IsWalk (init ++ [current]))
    (hmem : other ∈ g.peers) (hfresh : other ∉ init ++ [current])
    (hpub : current ∈ g.publicPeers ∨ other ∈ g.publicPeers) : g.IsWalk (init ++ [current] ++ [other]) := by
  refine ⟨?_, ?_, ?_⟩
  · exact h.nodup.append (List.nodup_singleton _) (by simpa using hfresh)
  · intro x hx
    rcases List.mem_append.mp hx with hx | hx
    · exact h.mem x hx
    · rw [List.mem_singleton.mp hx]
      exact hmem
  · refine h.chain.append (List.isChain_singleton _) fun x hx y hy => ?_
    simp only [List.getLast?_append, List.getLast?_singleton, Option.some_or, Option.mem_def,
      Option.some.injEq, List.head?_cons] at hx hy
    rw [← hx, ← hy]
    exact hpub

/-- The peers the next one is chosen from. -/
def neighbors (g : RandomDeploymentGraph) (current : ℕ) (visited : List ℕ) : Finset ℕ :=
  (if current ∈ g.publicPeers then g.peers else g.publicPeers) \ visited.toFinset

theorem mem_neighbors {current x : ℕ} {visited : List ℕ} :
    x ∈ g.neighbors current visited ↔
      x ∈ g.peers ∧ (current ∈ g.publicPeers ∨ x ∈ g.publicPeers) ∧ x ∉ visited := by
  have hpub : x ∈ g.publicPeers → x ∈ g.peers := fun h => (Finset.mem_sdiff.mp h).1
  rw [neighbors, Finset.mem_sdiff, List.mem_toFinset]
  split_ifs with hcurrent
  · simp [hcurrent]
  · simp only [hcurrent, false_or]
    tauto

theorem extendTree_succ (c : Choices) (i remaining current : ℕ) (visited : List ℕ) (edges : List (ℕ × ℕ)) :
    g.extendTree c i (remaining + 1) current visited edges =
      if g.neighbors current visited = ∅ then .ok (.incomplete edges)
      else pyAssert (current ∈ g.publicPeers ∨ c.pick i visited (g.neighbors current visited) ∈ g.publicPeers)
        >>= fun _ => g.extendTree c i remaining (c.pick i visited (g.neighbors current visited))
          (visited ++ [c.pick i visited (g.neighbors current visited)])
          (edges ++ [(current, c.pick i visited (g.neighbors current visited))]) := rfl

theorem extendTree_spec (c : Choices) (i : ℕ) (init : List ℕ) {remaining current : ℕ}
    (hw : g.IsWalk (init ++ [current])) (hlen : remaining + (init.length + 1) = g.peers.card) :
    ∃ w, g.IsWalk w ∧ g.IsMaximal w ∧ w ≠ [] ∧
      g.extendTree c i remaining current (init ++ [current]) (walkEdges (init ++ [current])) =
        .ok (g.treeOf w) := by
  induction remaining generalizing init current with
  | zero =>
    have hcard : (init ++ [current]).length = g.peers.card := by simpa using hlen
    exact ⟨_, hw, .inl hcard, by simp, by rw [treeOf, if_pos hcard]; rfl⟩
  | succ r ih =>
    have hlt : (init ++ [current]).length < g.peers.card := by
      rw [List.length_append, List.length_singleton]; omega
    rw [extendTree_succ]
    split_ifs with hempty
    · have hnone : ∀ x ∈ g.peers, (current ∈ g.publicPeers ∨ x ∈ g.publicPeers) → x ∈ init ++ [current] := by
        intro x hx hpub
        by_contra hfresh
        have := mem_neighbors.mpr ⟨hx, hpub, hfresh⟩
        rw [hempty] at this
        exact Finset.notMem_empty x this
      have hpriv : current ∉ g.publicPeers := by
        intro hpub
        have hsub : g.peers ⊆ (init ++ [current]).toFinset := fun x hx =>
          List.mem_toFinset.mpr (hnone x hx (.inl hpub))
        have hcard := Finset.card_le_card hsub
        rw [List.toFinset_card_of_nodup hw.nodup] at hcard
        omega
      refine ⟨_, hw, .inr ⟨hlt, fun x hx => ?_, init, current, rfl, hpriv⟩, by simp, ?_⟩
      · exact List.mem_toFinset.mpr (hnone x (Finset.mem_sdiff.mp hx).1 (.inr hx))
      · rw [treeOf, if_neg hlt.ne]
    · have hpick := c.pick_mem i (init ++ [current]) _ (Finset.nonempty_of_ne_empty hempty)
      generalize c.pick i (init ++ [current]) (g.neighbors current (init ++ [current])) = other at hpick ⊢
      obtain ⟨hmem, hpub, hfresh⟩ := mem_neighbors.mp hpick
      have hedges : walkEdges (init ++ [current] ++ [other]) =
          walkEdges (init ++ [current]) ++ [(current, other)] := by
        rw [List.append_assoc]
        exact walkEdges_append_pair init current other
      rw [decide_eq_true hpub, pyAssert_true, Except.ok_bind, ← hedges]
      exact ih _ (hw.snoc hmem hfresh hpub) (by rw [List.length_append, List.length_singleton]; omega)

theorem generateNewSpanningTree_spec (c : Choices) (i : ℕ) (hpeers : g.peers.Nonempty) :
    ∃ w, g.IsWalk w ∧ g.IsMaximal w ∧ w ≠ [] ∧ g.generateNewSpanningTree c i = .ok (g.treeOf w) := by
  have hmem := c.pick_mem i [] g.peers hpeers
  have hpos := hpeers.card_pos
  rw [generateNewSpanningTree, if_neg hpeers.ne_empty]
  refine extendTree_spec c i [] ⟨List.nodup_singleton _, ?_, List.isChain_singleton _⟩ ?_
  · intro x hx
    rw [List.mem_singleton.mp hx]
    exact hmem
  · rw [List.length_nil]; omega

/-! ### Choosing a walk -/

/-- The choices that follow the walk `ws i` in try `i`, as far as it is possible. -/
noncomputable def following (ws : ℕ → List ℕ) : Choices where
  pick i visited s :=
    open Classical in
    if h : ∃ v ∈ s, (ws i)[visited.length]? = some v then h.choose
    else if h : s.Nonempty then h.choose else 0
  pick_mem i visited s hs := by
    split_ifs with h
    · exact h.choose_spec.1
    · exact hs.choose_spec

theorem following_pick {ws : ℕ → List ℕ} {i v : ℕ} {visited : List ℕ} {s : Finset ℕ} (hv : v ∈ s)
    (hws : (ws i)[visited.length]? = some v) : (following ws).pick i visited s = v := by
  have h : ∃ v ∈ s, (ws i)[visited.length]? = some v := ⟨v, hv, hws⟩
  have hspec := h.choose_spec.2
  change (dite _ _ _ : ℕ) = v
  rw [dif_pos h]
  exact (Option.some.inj (hws.symm.trans hspec)).symm

theorem extendTree_following (init : List ℕ) {ws : ℕ → List ℕ} {i remaining current : ℕ} {rest : List ℕ}
    (hws : ws i = init ++ [current] ++ rest) (hw : g.IsWalk (ws i)) (hmax : g.IsMaximal (ws i))
    (hlen : remaining + (init.length + 1) = g.peers.card) :
    g.extendTree (following ws) i remaining current (init ++ [current]) (walkEdges (init ++ [current])) =
      .ok (g.treeOf (ws i)) := by
  induction rest generalizing init current remaining with
  | nil =>
    rw [List.append_nil] at hws
    rw [treeOf, hws]
    rcases hmax with hcard | ⟨hlt, hpub, init', last, heq, hlast⟩
    · rw [if_pos (hws ▸ hcard)]
      rw [hws, List.length_append, List.length_singleton] at hcard
      obtain rfl : remaining = 0 := by omega
      rfl
    · rw [if_neg (hws ▸ hlt.ne)]
      rw [hws, List.length_append, List.length_singleton] at hlt
      obtain ⟨r, rfl⟩ : ∃ r, remaining = r + 1 := ⟨remaining - 1, by omega⟩
      have hempty : g.neighbors current (init ++ [current]) = ∅ := by
        obtain rfl : current = last := by
          rw [hws] at heq
          exact (List.append_inj' heq rfl).2 |> List.singleton_inj.mp
        rw [Finset.eq_empty_iff_forall_notMem]
        intro x hx
        obtain ⟨-, hx, hfresh⟩ := mem_neighbors.mp hx
        exact hfresh (hws ▸ List.mem_toFinset.mp (hpub (hx.resolve_left hlast)))
      rw [extendTree_succ, if_pos hempty]
  | cons v rest ih =>
    have hlong : init.length + 1 < g.peers.card := by
      have := hw.length_le
      rw [hws] at this
      simp only [List.length_append, List.length_cons, List.length_nil] at this
      omega
    obtain ⟨r, rfl⟩ : ∃ r, remaining = r + 1 := ⟨remaining - 1, by omega⟩
    have hnodup := hw.nodup
    have hchain := hw.chain
    rw [hws] at hnodup hchain
    have hfresh : v ∉ init ++ [current] := fun hv =>
      (List.nodup_append.mp hnodup).2.2 v hv v List.mem_cons_self rfl
    have hpub : current ∈ g.publicPeers ∨ v ∈ g.publicPeers := by
      rw [List.append_assoc, List.singleton_append] at hchain
      exact (List.isChain_append_cons_cons.mp hchain).2.1
    have hmem : v ∈ g.neighbors current (init ++ [current]) :=
      mem_neighbors.mpr ⟨hw.mem v (by rw [hws]; simp), hpub, hfresh⟩
    have hpick : (following ws).pick i (init ++ [current]) (g.neighbors current (init ++ [current])) = v :=
      following_pick hmem (by rw [hws, List.getElem?_append_right le_rfl]; simp)
    have hedges : walkEdges (init ++ [current] ++ [v]) =
        walkEdges (init ++ [current]) ++ [(current, v)] := by
      rw [List.append_assoc]
      exact walkEdges_append_pair init current v
    rw [extendTree_succ, if_neg (Finset.ne_empty_of_mem hmem), hpick, decide_eq_true hpub, pyAssert_true,
      Except.ok_bind, ← hedges]
    exact ih _ (by rw [hws]; simp) (by rw [List.length_append, List.length_singleton]; omega)

/-- Every maximal walk can be chosen, in every try. -/
theorem generateNewSpanningTree_following {ws : ℕ → List ℕ} {i : ℕ} (hne : ws i ≠ [])
    (hw : g.IsWalk (ws i)) (hmax : g.IsMaximal (ws i)) :
    g.generateNewSpanningTree (following ws) i = .ok (g.treeOf (ws i)) := by
  obtain ⟨x, rest, hws⟩ := List.exists_cons_of_ne_nil hne
  have hx : x ∈ g.peers := hw.mem x (by rw [hws]; exact List.mem_cons_self)
  have hpos := Finset.card_pos.mpr ⟨x, hx⟩
  have hpick : (following ws).pick i [] g.peers = x := following_pick hx (by rw [hws]; rfl)
  rw [generateNewSpanningTree, if_neg (Finset.ne_empty_of_mem hx), hpick]
  exact extendTree_following [] hws hw hmax (by rw [List.length_nil]; omega)

end RandomDeploymentGraph

end Uno
