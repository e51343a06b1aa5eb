import Uno.Lib.Fold
import Uno.Deploy.Links
import Mathlib.Logic.Relation

/-!
# Deployments

`DeploymentStrategy.deploy` turns what a strategy generates (a list of peers, the number of ports of
each, and for each port the index of the peer it connects to) into a `P2pLinksMap`: for each peer
the peers it links to, with the port index of the link and the addresses of its two ends.

A `DeploymentGraph` is the abstract result: each peer with the peers it lists, carrying the graph
contract (symmetric, irreflexive, connected, no link between private peers). `deploy_realizes` says
that a strategy whose output realizes such a graph deploys exactly this graph when its links fit in
the backbone subnet, and raises otherwise.
-/

namespace Uno

open PairedValuesMap

/-- One link of a peer: its port index, the addresses of this and of the other end. -/
structure Link where
  port : ℕ
  address : IPv4Address
  peerAddress : IPv4Address
  network : IPv4Network
  deriving DecidableEq

structure DeployedPeer where
  n : ℕ
  peers : Dict ℕ Link
  deriving DecidableEq

/-- The `peers` property of `P2pLinksMap`. -/
abbrev P2pLinksMap := Dict ℕ DeployedPeer

/-- What `_generate_deployment` returns. -/
structure Generated where
  peers : List ℕ
  peersCount : ℕ → Result ℕ
  connections : List (ℕ → Result (Option ℕ))

/-- `EMPTY_DEPLOYMENT`; its count is never called. -/
def emptyDeployment : Generated := ⟨[], fun _ => .error (.type "not callable"), []⟩

/-- The entry of port `i` of peer `peerA`, connected to `peerB`. -/
def mkLink (peerA peerB i : ℕ) (value : LinkAllocation) : Link where
  port := i
  address := pick peerA peerB peerA value.addresses
  peerAddress := pick peerA peerB peerB value.addresses
  network := value.network

namespace Generated

/-- The links of a peer and the network map, after port `i`. -/
def deployPort (g : Generated) (n peerA : ℕ) (acc : Dict ℕ Link × P2pLinkAllocationMap) (i : ℕ) :
    Result (Dict ℕ Link × P2pLinkAllocationMap) := do
  let connection ← pyIndex g.connections i
  match ← connection n with
  | none => pure acc
  | some peerBn => do
    let peerB ← pyIndex g.peers peerBn
    let ((value, _), networkMap) ← acc.2.assertPair peerA peerB
    pure (acc.1.set peerB (mkLink peerA peerB i value), networkMap)

/-- The deployed peers and the network map, after the peer `x.1` at index `x.2`. -/
def deployPeer (g : Generated) (acc : P2pLinksMap × P2pLinkAllocationMap) (x : ℕ × ℕ) :
    Result (P2pLinksMap × P2pLinkAllocationMap) := do
  let count ← g.peersCount x.2
  let (peers, networkMap) ← (List.range count).foldlM (g.deployPort x.2 x.1) (∅, acc.2)
  pure (acc.1.set x.1 ⟨x.2, peers⟩, networkMap)

/-- `deploy`, after `_generate_deployment`. -/
def deploy (g : Generated) (networkMap : P2pLinkAllocationMap) :
    Result (P2pLinksMap × P2pLinkAllocationMap) :=
  g.peers.zipIdx.foldlM g.deployPeer (∅, networkMap)

end Generated

/-! ### Deployment graphs -/

/-- Peer `a` lists peer `b`. -/
def Lists (adj : List (ℕ × List ℕ)) (a b : ℕ) : Prop := ∃ nbrs, (a, nbrs) ∈ adj ∧ b ∈ nbrs

/-- A well-formed graph of links between peers: each peer with the peers of its ports, in order. -/
structure DeploymentGraph (peers privatePeers : Finset ℕ) where
  adj : List (ℕ × List ℕ)
  nodup : (adj.map Prod.fst).Nodup
  vertices : ∀ a, a ∈ adj.map Prod.fst ↔ a ∈ peers
  nbrs_nodup : ∀ a nbrs, (a, nbrs) ∈ adj → nbrs.Nodup
  symm : ∀ a b, Lists adj a b → Lists adj b a
  irrefl : ∀ a, ¬ Lists adj a a
  not_private : ∀ a b, Lists adj a b → a ∉ privatePeers ∨ b ∉ privatePeers
  connected : ∀ a ∈ peers, ∀ b ∈ peers, Relation.ReflTransGen (Lists adj) a b

/-- The addresses a list of links asks for, in order. -/
def linkRequests (adj : List (ℕ × List ℕ)) : List (ℕ × ℕ) :=
  adj.flatMap fun e => e.2.map fun b => (e.1, b)

/-- The links of a graph: unordered pairs of peers. -/
def DeploymentGraph.links {peers privatePeers : Finset ℕ} (graph : DeploymentGraph peers privatePeers) :
    Finset (ℕ × ℕ) :=
  P2pLinkAllocationMap.requestedPairs (linkRequests graph.adj)

/-- The output of a strategy lists these peers with these connections. -/
structure Generated.Realizes (g : Generated) (adj : List (ℕ × List ℕ)) : Prop where
  peers : g.peers = adj.map Prod.fst
  peersCount : ∀ (n a : ℕ) (nbrs : List ℕ), adj[n]? = some (a, nbrs) → g.peersCount n = .ok nbrs.length
  connections : ∀ (n a : ℕ) (nbrs : List ℕ) (i b : ℕ), adj[n]? = some (a, nbrs) → nbrs[i]? = some b →
    ∃ (connection : ℕ → Result (Option ℕ)) (k : ℕ), g.connections[i]? = some connection ∧ connection n = .ok (some k) ∧
      g.peers[k]? = some b

/-! ### What a deployment holds -/

/-- The entries of peer `a` for the peers of its ports. -/
structure LinksTo (m : P2pLinkAllocationMap) (a : ℕ) (nbrs : List ℕ) (links : Dict ℕ Link) : Prop where
  keys : links.keys = nbrs
  get : ∀ (i b : ℕ), nbrs[i]? = some b → ∃ value, m.pairs.get? (pairKey a b) = some value ∧
    links.get? b = some (mkLink a b i value)

/-- The links map of a graph whose links have the addresses of `m`. -/
structure Deploys (m : P2pLinkAllocationMap) (adj : List (ℕ × List ℕ)) (res : P2pLinksMap) : Prop where
  keys : res.keys = adj.map Prod.fst
  get : ∀ (n a : ℕ) (nbrs : List ℕ), adj[n]? = some (a, nbrs) → ∃ links, res.get? a = some ⟨n, links⟩ ∧
    LinksTo m a nbrs links

theorem LinksTo.extends {m m' : P2pLinkAllocationMap} {a : ℕ} {nbrs : List ℕ} {links : Dict ℕ Link}
    (h : LinksTo m a nbrs links) (hext : m.Extends m') : LinksTo m' a nbrs links := by
  refine ⟨h.keys, fun i b hb => ?_⟩
  obtain ⟨value, hvalue, hlink⟩ := h.get i b hb
  exact ⟨value, hext _ _ hvalue, hlink⟩

theorem Deploys.extends {m m' : P2pLinkAllocationMap} {adj : List (ℕ × List ℕ)} {res : P2pLinksMap}
    (h : Deploys m adj res) (hext : m.Extends m') : Deploys m' adj res := by
  refine ⟨h.keys, fun n a nbrs hn => ?_⟩
  obtain ⟨links, hlinks, hto⟩ := h.get n a nbrs hn
  exact ⟨links, hlinks, hto.extends hext⟩

/-! ### The loop of `deploy` over a graph -/

/-- Port `x.2` of peer `a`, connected to peer `x.1`. -/
def linkPort (a : ℕ) (acc : Dict ℕ Link × P2pLinkAllocationMap) (x : ℕ × ℕ) :
    Result (Dict ℕ Link × P2pLinkAllocationMap) := do
  let ((value, _), m) ← acc.2.assertPair a x.1
  pure (acc.1.set x.1 (mkLink a x.1 x.2 value), m)

def linkPeer (acc : P2pLinksMap × P2pLinkAllocationMap) (x : (ℕ × List ℕ) × ℕ) :
    Result (P2pLinksMap × P2pLinkAllocationMap) := do
  let (links, m) ← x.1.2.zipIdx.foldlM (linkPort x.1.1) (∅, acc.2)
  pure (acc.1.set x.1.1 ⟨x.2, links⟩, m)

theorem foldlM_range_eq_zipIdx {α β : Type} {f : β → ℕ → Result β} {g : β → α × ℕ → Result β}
    {l : List α} (h : ∀ b i a, l[i]? = some a → f b i = g b (a, i)) (b : β) :
    (List.range l.length).foldlM f b = l.zipIdx.foldlM g b := by
  have hrange : List.range l.length = l.zipIdx.map Prod.snd := by
    rw [List.zipIdx_map_snd, List.range_eq_range']
  rw [hrange, List.foldlM_map]
  refine Fold.foldlM_congr (fun b x hx => ?_) b
  exact h b x.2 x.1 (List.mk_mem_zipIdx_iff_getElem?.mp hx)

theorem Generated.Realizes.deploy_eq {g : Generated} {adj : List (ℕ × List ℕ)} (h : g.Realizes adj)
    (m : P2pLinkAllocationMap) : g.deploy m = adj.zipIdx.foldlM linkPeer (∅, m) := by
  have hzip : g.peers.zipIdx = adj.zipIdx.map fun x => (x.1.1, x.2) := by
    rw [h.peers, List.zipIdx_map]
    rfl
  rw [Generated.deploy, hzip, List.foldlM_map]
  refine Fold.foldlM_congr (fun acc x hx => ?_) _
  obtain ⟨⟨a, nbrs⟩, n⟩ := x
  have hn := List.mk_mem_zipIdx_iff_getElem?.mp hx
  have hports : (List.range nbrs.length).foldlM (g.deployPort n a) (∅, acc.2) =
      nbrs.zipIdx.foldlM (linkPort a) (∅, acc.2) := by
    refine foldlM_range_eq_zipIdx (fun acc i b hb => ?_) _
    obtain ⟨connection, k, hconnection, hk, hb'⟩ := h.connections n a nbrs i b hn hb
    simp only [Generated.deployPort, pyIndex_eq_ok hconnection, pyIndex_eq_ok hb', hk, linkPort, bind,
      Except.bind]
  change (g.peersCount n >>= _) = _
  rw [h.peersCount n a nbrs hn]
  change ((List.range nbrs.length).foldlM (g.deployPort n a) (∅, acc.2) >>= _) = _
  rw [hports]
  rfl

theorem linkPorts_spec {m : P2pLinkAllocationMap} (hm : m.Allocated) (a : ℕ) {nbrs : List ℕ}
    (hnodup : nbrs.Nodup) :
    (∃ links m', nbrs.zipIdx.foldlM (linkPort a) (∅, m) = .ok (links, m') ∧
      m.assertPairs (nbrs.map fun b => (a, b)) = .ok m' ∧ LinksTo m' a nbrs links) ∨
    (∃ e, nbrs.zipIdx.foldlM (linkPort a) (∅, m) = .error e ∧
      m.assertPairs (nbrs.map fun b => (a, b)) = .error e) := by
  induction nbrs using List.reverseRecOn with
  | nil => exact .inl ⟨∅, m, rfl, rfl, rfl, fun i b hb => by simp at hb⟩
  | append_singleton init b ih =>
    rw [List.nodup_append] at hnodup
    have hfresh : b ∉ init := fun hb => hnodup.2.2 b hb b (List.mem_singleton_self b) rfl
    rw [List.zipIdx_append, List.foldlM_append, List.map_append, P2pLinkAllocationMap.assertPairs_append]
    rcases ih hnodup.1 with ⟨links, m₁, hfold, hreq, hto⟩ | ⟨e, hfold, hreq⟩
    · obtain ⟨hm₁, -, -⟩ := P2pLinkAllocationMap.assertPairs_eq_ok hm hreq
      simp only [hfold, hreq, bind, Except.bind, List.zipIdx_cons, List.zipIdx_nil, List.map_cons,
        List.map_nil, List.foldlM_cons, List.foldlM_nil, linkPort, zero_add, pure, Except.pure,
        P2pLinkAllocationMap.assertPairs_singleton]
      cases hlast : m₁.assertPair a b with
      | error e => exact .inr ⟨e, rfl, rfl⟩
      | ok x =>
        obtain ⟨⟨value, generated⟩, m₂⟩ := x
        obtain ⟨-, hext, -, hget, -⟩ := P2pLinkAllocationMap.assertPair_eq_ok hm₁ hlast
        have hkeys : b ∉ links.keys := by rwa [hto.keys]
        refine .inl ⟨_, _, rfl, rfl, ?_, ?_⟩
        · rw [Dict.keys, Dict.entries_set_of_not_mem _ hkeys, List.map_append]
          exact congrArg (· ++ [b]) hto.keys
        · intro i c hc
          rcases Nat.lt_or_ge i init.length with hi | hi
          · rw [List.getElem?_append_left hi] at hc
            obtain ⟨v, hv, hlink⟩ := hto.get i c hc
            have hne : b ≠ c := by
              rintro rfl
              exact hfresh (List.mem_of_getElem? hc)
            exact ⟨v, hext _ _ hv, by rw [Dict.get?_set_ne _ _ hne, hlink]⟩
          · rw [List.getElem?_append_right hi] at hc
            obtain ⟨hzero, heq⟩ := List.getElem?_eq_some_iff.mp hc
            simp only [List.length_singleton] at hzero
            obtain rfl : i = init.length := by omega
            simp only [Nat.sub_self, List.getElem_cons_zero] at heq
            subst heq
            exact ⟨value, hget, by rw [Dict.get?_set_self]⟩
    · rw [hfold, hreq]
      exact .inr ⟨e, rfl, rfl⟩

theorem linkPeers_spec {m : P2pLinkAllocationMap} (hm : m.Allocated) {adj : List (ℕ × List ℕ)}
    (hnodup : (adj.map Prod.fst).Nodup) (hnbrs : ∀ a nbrs, (a, nbrs) ∈ adj → nbrs.Nodup) :
    (∃ res m', adj.zipIdx.foldlM linkPeer (∅, m) = .ok (res, m') ∧
      m.assertPairs (linkRequests adj) = .ok m' ∧ Deploys m' adj res) ∨
    (∃ e, adj.zipIdx.foldlM linkPeer (∅, m) = .error e ∧
      m.assertPairs (linkRequests adj) = .error e) := by
  induction adj using List.reverseRecOn with
  | nil => exact .inl ⟨∅, m, rfl, rfl, rfl, fun n a nbrs hn => by simp at hn⟩
  | append_singleton init last ih =>
    obtain ⟨a, nbrs⟩ := last
    rw [List.map_append, List.nodup_append] at hnodup
    have hfresh : a ∉ init.map Prod.fst := fun ha =>
      hnodup.2.2 a ha a (List.mem_singleton_self a) rfl
    have hinit : ∀ a nbrs, (a, nbrs) ∈ init → nbrs.Nodup := fun a nbrs h =>
      hnbrs a nbrs (List.mem_append_left _ h)
    have hrequests : linkRequests (init ++ [(a, nbrs)]) =
        linkRequests init ++ nbrs.map fun b => (a, b) := by
      simp [linkRequests]
    rw [hrequests, List.zipIdx_append, List.foldlM_append, P2pLinkAllocationMap.assertPairs_append]
    rcases ih hnodup.1 hinit with ⟨res, m₁, hfold, hreq, hdep⟩ | ⟨e, hfold, hreq⟩
    · obtain ⟨hm₁, -, -⟩ := P2pLinkAllocationMap.assertPairs_eq_ok hm hreq
      simp only [hfold, hreq, bind, Except.bind, List.zipIdx_cons, List.zipIdx_nil, List.foldlM_cons,
        List.foldlM_nil, linkPeer, zero_add, pure, Except.pure]
      have hlast : nbrs.Nodup := hnbrs a nbrs (by simp)
      rcases linkPorts_spec hm₁ a hlast with ⟨links, m₂, hports, hreq₂, hto⟩ | ⟨e, hports, hreq₂⟩
      · obtain ⟨-, hext, -⟩ := P2pLinkAllocationMap.assertPairs_eq_ok hm₁ hreq₂
        rw [hports, hreq₂]
        have hkeys : a ∉ res.keys := by rwa [hdep.keys]
        refine .inl ⟨_, _, rfl, rfl, ?_, ?_⟩
        · rw [Dict.keys, Dict.entries_set_of_not_mem _ hkeys, List.map_append, List.map_append]
          exact congrArg (· ++ [a]) hdep.keys
        · intro n c ns hn
          rcases Nat.lt_or_ge n init.length with hlt | hge
          · rw [List.getElem?_append_left hlt] at hn
            obtain ⟨ls, hls, hto'⟩ := hdep.get n c ns hn
            have hne : a ≠ c := by
              rintro rfl
              exact hfresh (List.mem_map_of_mem (f := Prod.fst) (List.mem_of_getElem? hn))
            exact ⟨ls, by rw [Dict.get?_set_ne _ _ hne, hls], hto'.extends hext⟩
          · rw [List.getElem?_append_right hge] at hn
            obtain ⟨hzero, heq⟩ := List.getElem?_eq_some_iff.mp hn
            simp only [List.length_singleton] at hzero
            obtain rfl : n = init.length := by omega
            simp only [Nat.sub_self, List.getElem_cons_zero, Prod.mk.injEq] at heq
            obtain ⟨rfl, rfl⟩ := heq
            exact ⟨links, by rw [Dict.get?_set_self], hto⟩
      · rw [hports, hreq₂]
        exact .inr ⟨e, rfl, rfl⟩
    · rw [hfold, hreq]
      exact .inr ⟨e, rfl, rfl⟩

/-- A strategy that realizes a graph deploys it when its links fit in the subnet of a fresh network
map, and raises otherwise. -/
theorem Generated.deploy_realizes {g : Generated} {peers privatePeers : Finset ℕ}
    {graph : DeploymentGraph peers privatePeers} (h : g.Realizes graph.adj) {subnet : IPv4Network}
    {m : P2pLinkAllocationMap} (hnew : P2pLinkAllocationMap.new subnet = .ok m) :
    (graph.links.card ≤ subnet.capacity ∧
      ∃ res m', g.deploy m = .ok (res, m') ∧ m'.Allocated ∧ Deploys m' graph.adj res) ∨
    (subnet.capacity < graph.links.card ∧ ∃ e, g.deploy m = .error e) := by
  obtain ⟨hm, -, -⟩ := P2pLinkAllocationMap.allocated_new hnew
  have hfits := P2pLinkAllocationMap.assertPairs_ok_iff hnew (linkRequests graph.adj)
  rw [h.deploy_eq]
  rcases linkPeers_spec hm graph.nodup graph.nbrs_nodup with ⟨res, m', hfold, hreq, hdep⟩ | ⟨e, hfold, hreq⟩
  · obtain ⟨hm', -, -⟩ := P2pLinkAllocationMap.assertPairs_eq_ok hm hreq
    exact .inl ⟨hfits.mp ⟨m', hreq⟩, res, m', hfold, hm', hdep⟩
  · refine .inr ⟨Nat.lt_of_not_le fun hle => ?_, e, hfold⟩
    obtain ⟨m', hok⟩ := hfits.mpr hle
    rw [hreq] at hok
    cases hok

end Uno
