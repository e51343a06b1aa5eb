import Uno.Vpn.Backbone

/-!
# The two ends of a backbone link

Building the backbone configuration generates the keys of every link (`assertKeys_eq_ok`). From then
on `peerConfig` leaves the key material as it is and returns one configuration for each link of the
cell, made from what the deployment, the key material and the cells hold (`StoredConfig`). The two
configurations of a link read the same key pair and the same block of addresses from opposite sides
(`backbone_ends_agree`).
-/

namespace Uno

open PairedValuesMap

/-! ### Key material -/

namespace P2pVpnKeyMaterial

/-- The keys of a pair. -/
def Holds (k : P2pVpnKeyMaterial) (a b : ℕ) (keys : WireGuardKeyPair × WireGuardKeyPair) (psk : String) :
    Prop :=
  k.pairKeys.get? (pairKey a b) = some keys ∧ k.presharedKeys.get? (pairKey a b) = some psk

def Extends (k k' : P2pVpnKeyMaterial) : Prop :=
  (∀ p keys, k.pairKeys.get? p = some keys → k'.pairKeys.get? p = some keys) ∧
    ∀ p psk, k.presharedKeys.get? p = some psk → k'.presharedKeys.get? p = some psk

theorem Extends.refl (k : P2pVpnKeyMaterial) : k.Extends k := ⟨fun _ _ h => h, fun _ _ h => h⟩

theorem Extends.trans {k₁ k₂ k₃ : P2pVpnKeyMaterial} (h : k₁.Extends k₂) (h' : k₂.Extends k₃) :
    k₁.Extends k₃ :=
  ⟨fun p v hp => h'.1 p v (h.1 p v hp), fun p v hp => h'.2 p v (h.2 p v hp)⟩

theorem Holds.extends {k k' : P2pVpnKeyMaterial} {a b : ℕ} {keys : WireGuardKeyPair × WireGuardKeyPair}
    {psk : String} (h : k.Holds a b keys psk) (hext : k.Extends k') : k'.Holds a b keys psk :=
  ⟨hext.1 _ _ h.1, hext.2 _ _ h.2⟩

theorem assertPair_of_holds (source : KeySource) {k : P2pVpnKeyMaterial} {a b : ℕ}
    {keys : WireGuardKeyPair × WireGuardKeyPair} {psk : String} (h : k.Holds a b keys psk) :
    k.assertPair source a b = .ok (((keys, psk), false), k) := by
  rw [assertPair, PairedValuesMap.assertPair_of_get? h.1, PairedValuesMap.assertPair_of_get? h.2]
  rfl

theorem get?_set_of_none {α : Type} {d : PairedValuesMap α} {p q : ℕ × ℕ} {v w : α}
    (hp : d.get? p = none) (hq : d.get? q = some w) : (d.set p v).get? q = some w := by
  have hne : p ≠ q := by
    rintro rfl
    rw [hp] at hq
    cases hq
  rw [Dict.get?_set_ne _ _ hne, hq]

theorem assertPair_eq_ok (source : KeySource) (k : P2pVpnKeyMaterial) (a b : ℕ) :
    ∃ keys psk generated k', k.assertPair source a b = .ok (((keys, psk), generated), k') ∧
      k.Extends k' ∧ k'.Holds a b keys psk := by
  have hpair : ∀ n, ∃ keys g pairKeys n', PairedValuesMap.assertPair (generatePair source) k.pairKeys a b n =
      .ok (((keys, g), pairKeys), n') ∧ pairKeys.get? (pairKey a b) = some keys ∧
      ∀ p v, k.pairKeys.get? p = some v → pairKeys.get? p = some v := by
    intro n
    cases hget : k.pairKeys.get? (pairKey a b) with
    | some keys =>
      exact ⟨keys, false, k.pairKeys, n, by rw [PairedValuesMap.assertPair_of_get? hget]; rfl, hget,
        fun _ _ h => h⟩
    | none =>
      refine ⟨_, true, _, _, by rw [PairedValuesMap.assertPair_of_get?_none hget]; rfl,
        Dict.get?_set_self _ _ _, fun p v h => get?_set_of_none hget h⟩
  have hpsk : ∀ n, ∃ psk g psks n', PairedValuesMap.assertPair (generatePsk source) k.presharedKeys a b n =
      .ok (((psk, g), psks), n') ∧ psks.get? (pairKey a b) = some psk ∧
      ∀ p v, k.presharedKeys.get? p = some v → psks.get? p = some v := by
    intro n
    cases hget : k.presharedKeys.get? (pairKey a b) with
    | some psk =>
      exact ⟨psk, false, k.presharedKeys, n, by rw [PairedValuesMap.assertPair_of_get? hget]; rfl, hget,
        fun _ _ h => h⟩
    | none =>
      refine ⟨_, true, _, _, by rw [PairedValuesMap.assertPair_of_get?_none hget]; rfl,
        Dict.get?_set_self _ _ _, fun p v h => get?_set_of_none hget h⟩
  obtain ⟨keys, g, pairKeys, n, hk, hkget, hkext⟩ := hpair k.generated
  obtain ⟨psk, g', psks, n', hp, hpget, hpext⟩ := hpsk n
  refine ⟨keys, psk, g || g', ⟨pairKeys, psks, n'⟩, ?_, ⟨hkext, hpext⟩, hkget, hpget⟩
  rw [assertPair, hk]
  simp only [Except.ok_bind, hp]

end P2pVpnKeyMaterial

/-! ### Configurations -/

theorem pyGetItem_eq_ok {α : Type} {d : Dict ℕ α} {k : ℕ} {v : α} (h : d.get? k = some v) :
    pyGetItem d k = .ok v := by
  rw [pyGetItem, h]

namespace P2pVpnConfig

variable {source : KeySource} {vpn : P2pVpnConfig} {k : P2pVpnKeyMaterial} {a : ℕ}

/-- What a link's configuration needs besides keys: the other end's entry and both addresses. -/
structure Linkable (vpn : P2pVpnConfig) (a b : ℕ) (linkB : Link) (endpoint endpointB : Option String) :
    Prop where
  entry : ∃ p, vpn.deployment.get? b = some p ∧ p.peers.get? a = some linkB
  endpoint : vpn.peerEndpoints.get? a = some endpoint
  endpointB : vpn.peerEndpoints.get? b = some endpointB

/-- The configuration of a link, once its keys are stored. -/
def StoredConfig (vpn : P2pVpnConfig) (k : P2pVpnKeyMaterial) (a : ℕ) (x : ℕ × Link)
    (cfg : WireGuardConfig) : Prop :=
  ∃ linkB keys psk endpoint endpointB, vpn.Linkable a x.1 linkB endpoint endpointB ∧
    k.Holds a x.1 keys psk ∧
    cfg = linkConfig vpn.settings (vpn.settings.interface.render x.2.port) a x.1 x.2 linkB keys psk
      endpoint endpointB

theorem linkStep_of_assertPair (hfield : vpn.settings.interface.fields = 1) {b : ℕ} {link linkB : Link}
    {endpoint endpointB : Option String} (hlink : vpn.Linkable a b linkB endpoint endpointB)
    {keys : WireGuardKeyPair × WireGuardKeyPair} {psk : String} {generated : Bool}
    {k' : P2pVpnKeyMaterial} (hkeys : k.assertPair source a b = .ok (((keys, psk), generated), k'))
    (cfgs : List WireGuardConfig) :
    vpn.linkStep source a (cfgs, k) (b, link) =
      .ok (cfgs ++ [linkConfig vpn.settings (vpn.settings.interface.render link.port) a b link linkB keys psk
        endpoint endpointB], k') := by
  obtain ⟨p, hp, hlinkB⟩ := hlink.entry
  simp only [linkStep, pyGetItem_eq_ok hp, pyGetItem_eq_ok hlinkB, pyGetItem_eq_ok hlink.endpoint,
    pyGetItem_eq_ok hlink.endpointB, hkeys, InterfaceTemplate.format_eq_ok hfield, Except.ok_bind]

theorem linkSteps_eq_ok (source : KeySource) (hfield : vpn.settings.interface.fields = 1) {l : List (ℕ × Link)}
    (hlinks : ∀ x ∈ l, ∃ linkB endpoint endpointB, vpn.Linkable a x.1 linkB endpoint endpointB)
    (cfgs : List WireGuardConfig) (k : P2pVpnKeyMaterial) :
    ∃ cfgs' k', l.foldlM (vpn.linkStep source a) (cfgs, k) = .ok (cfgs', k') ∧ k.Extends k' ∧
      ∀ x ∈ l, ∃ keys psk, k'.Holds a x.1 keys psk := by
  induction l generalizing cfgs k with
  | nil => exact ⟨cfgs, k, rfl, .refl k, by simp⟩
  | cons x rest ih =>
    obtain ⟨linkB, endpoint, endpointB, hlink⟩ := hlinks x List.mem_cons_self
    obtain ⟨keys, psk, g, k₁, hassert, hext, hholds⟩ :=
      P2pVpnKeyMaterial.assertPair_eq_ok source k a x.1
    obtain ⟨cfgs', k', hfold, hext', hholds'⟩ :=
      ih (fun y hy => hlinks y (List.mem_cons_of_mem _ hy)) (cfgs ++ [linkConfig vpn.settings
        (vpn.settings.interface.render x.2.port) a x.1 x.2 linkB keys psk endpoint endpointB]) k₁
    refine ⟨cfgs', k', ?_, hext.trans hext', ?_⟩
    · rw [List.foldlM_cons, linkStep_of_assertPair hfield hlink hassert, Except.ok_bind, hfold]
    · intro y hy
      rcases List.mem_cons.mp hy with rfl | hy
      · exact ⟨keys, psk, hholds.extends hext'⟩
      · exact hholds' y hy

theorem linkSteps_of_holds (source : KeySource) (hfield : vpn.settings.interface.fields = 1) {l : List (ℕ × Link)}
    (hlinks : ∀ x ∈ l, ∃ linkB endpoint endpointB, vpn.Linkable a x.1 linkB endpoint endpointB)
    (hkeys : ∀ x ∈ l, ∃ keys psk, k.Holds a x.1 keys psk) (cfgs : List WireGuardConfig) :
    ∃ cfgs', l.foldlM (vpn.linkStep source a) (cfgs, k) = .ok (cfgs ++ cfgs', k) ∧
      List.Forall₂ (vpn.StoredConfig k a) l cfgs' := by
  induction l generalizing cfgs with
  | nil => exact ⟨[], by rw [List.append_nil]; rfl, .nil⟩
  | cons x rest ih =>
    obtain ⟨linkB, endpoint, endpointB, hlink⟩ := hlinks x List.mem_cons_self
    obtain ⟨keys, psk, hholds⟩ := hkeys x List.mem_cons_self
    have hassert := P2pVpnKeyMaterial.assertPair_of_holds source hholds
    obtain ⟨cfgs', hfold, hstored⟩ :=
      ih (fun y hy => hlinks y (List.mem_cons_of_mem _ hy))
        (fun y hy => hkeys y (List.mem_cons_of_mem _ hy)) (cfgs ++ [linkConfig vpn.settings
          (vpn.settings.interface.render x.2.port) a x.1 x.2 linkB keys psk endpoint endpointB])
    refine ⟨_ :: cfgs', ?_, .cons ⟨linkB, keys, psk, endpoint, endpointB, hlink, hholds, rfl⟩ hstored⟩
    rw [List.foldlM_cons, linkStep_of_assertPair hfield hlink hassert, Except.ok_bind, hfold,
      List.append_assoc]
    rfl

/-- All links of the deployment have what their configurations need. -/
def AllLinkable (vpn : P2pVpnConfig) : Prop :=
  ∀ a p b, vpn.deployment.get? a = some p → b ∈ p.peers.keys →
    ∃ linkB endpoint endpointB, vpn.Linkable a b linkB endpoint endpointB

theorem AllLinkable.entries (h : vpn.AllLinkable) {p : DeployedPeer}
    (hp : vpn.deployment.get? a = some p) :
    ∀ x ∈ p.peers.entries, ∃ linkB endpoint endpointB, vpn.Linkable a x.1 linkB endpoint endpointB :=
  fun x hx => h a p x.1 hp (List.mem_map_of_mem (f := Prod.fst) hx)

/-- The keys of all links of a cell. -/
def HoldsLinks (vpn : P2pVpnConfig) (k : P2pVpnKeyMaterial) (a : ℕ) : Prop :=
  ∀ p b, vpn.deployment.get? a = some p → b ∈ p.peers.keys → ∃ keys psk, k.Holds a b keys psk

theorem peerConfig_eq_ok (source : KeySource) (hfield : vpn.settings.interface.fields = 1) (hall : vpn.AllLinkable) (a : ℕ)
    (k : P2pVpnKeyMaterial) :
    ∃ cfgs k', vpn.peerConfig source a k = .ok (cfgs, k') ∧ k.Extends k' ∧ vpn.HoldsLinks k' a := by
  cases hget : vpn.deployment.get? a with
  | none =>
    refine ⟨[], k, by rw [peerConfig, hget], .refl k, fun p b hp => ?_⟩
    rw [hget] at hp
    cases hp
  | some p =>
    obtain ⟨cfgs, k', hfold, hext, hholds⟩ :=
      linkSteps_eq_ok source hfield (hall.entries hget) [] k
    refine ⟨cfgs, k', by rw [peerConfig, hget]; exact hfold, hext, fun p' b hp hb => ?_⟩
    rw [hget, Option.some.injEq] at hp
    subst hp
    obtain ⟨x, hx, rfl⟩ := List.mem_map.mp hb
    exact hholds x hx

/-- Building the configuration leaves every link of its cells with keys. -/
theorem assertKeys_eq_ok (source : KeySource) (hfield : vpn.settings.interface.fields = 1) (hall : vpn.AllLinkable)
    (k : P2pVpnKeyMaterial) :
    ∃ k', vpn.assertKeys source k = .ok k' ∧ k.Extends k' ∧ ∀ a ∈ vpn.peerIds, vpn.HoldsLinks k' a := by
  rw [assertKeys]
  induction vpn.peerIds generalizing k with
  | nil => exact ⟨k, rfl, .refl k, by simp⟩
  | cons a rest ih =>
    obtain ⟨cfgs, k₁, hpeer, hext, hholds⟩ := peerConfig_eq_ok source hfield hall a k
    obtain ⟨k', hfold, hext', hholds'⟩ := ih k₁
    refine ⟨k', ?_, hext.trans hext', fun b hb => ?_⟩
    · rw [List.foldlM_cons, hpeer]
      exact hfold
    · rcases List.mem_cons.mp hb with rfl | hb
      · intro p c hp hc
        obtain ⟨keys, psk, h⟩ := hholds p c hp hc
        exact ⟨keys, psk, h.extends hext'⟩
      · exact hholds' b hb

theorem peerConfig_of_holds (source : KeySource) (hfield : vpn.settings.interface.fields = 1) (hall : vpn.AllLinkable)
    (hholds : vpn.HoldsLinks k a) {p : DeployedPeer} (hp : vpn.deployment.get? a = some p) :
    ∃ cfgs, vpn.peerConfig source a k = .ok (cfgs, k) ∧
      List.Forall₂ (vpn.StoredConfig k a) p.peers.entries cfgs := by
  obtain ⟨cfgs, hfold, hstored⟩ := linkSteps_of_holds source hfield (hall.entries hp)
    (fun x hx => hholds p x.1 hp (List.mem_map_of_mem (f := Prod.fst) hx)) []
  exact ⟨cfgs, by rw [peerConfig, hp]; exact hfold, hstored⟩

end P2pVpnConfig

/-! ### The links of a redeployed UVN -/

theorem map_eq_of_forall₂ {α β γ : Type} {R : α → β → Prop} {f : β → γ} {g : α → γ} {l : List α}
    {l' : List β} (h : List.Forall₂ R l l') (hfg : ∀ x y, R x y → f y = g x) : l'.map f = l.map g := by
  induction h with
  | nil => rfl
  | cons hR _ ih => rw [List.map_cons, List.map_cons, ih, hfg _ _ hR]

theorem exists_of_forall₂ {α β : Type} {R : α → β → Prop} {l : List α} {l' : List β}
    (h : List.Forall₂ R l l') {x : α} (hx : x ∈ l) : ∃ y ∈ l', R x y := by
  induction h with
  | nil => simp at hx
  | @cons x' y' _ _ hR _ ih =>
    rcases List.mem_cons.mp hx with rfl | hx
    · exact ⟨y', List.mem_cons_self, hR⟩
    · obtain ⟨y, hy, hRy⟩ := ih hx
      exact ⟨y, List.mem_cons_of_mem _ hy, hRy⟩

theorem truthy_iff (c : Cell) : truthy c.address ↔ c.address ≠ none := by
  simp [truthy, c.address_ne]

theorem mem_privateCells {cells : Dict ℕ Cell} {id : ℕ} {c : Cell} (hc : cells.get? id = some c) :
    id ∈ privateCells cells ↔ c.address = none := by
  have hmem : id ∈ cells.keys := Dict.mem_keys_iff.mpr ⟨c, hc⟩
  simp only [privateCells, Finset.mem_filter, List.mem_toFinset, hmem, true_and, hc, Option.bind_some,
    truthy_iff, not_not]

/-- One link of a deployment of cells: the entries of its two ends. -/
structure LinkedCells (cells : Dict ℕ Cell) (d : P2pLinksMap) (a b : ℕ) where
  peerA : DeployedPeer
  peerB : DeployedPeer
  indexA : ℕ
  indexB : ℕ
  value : LinkAllocation
  cellA : Cell
  cellB : Cell
  get_a : d.get? a = some peerA
  get_b : d.get? b = some peerB
  link_a : peerA.peers.get? b = some (mkLink a b indexA value)
  link_b : peerB.peers.get? a = some (mkLink b a indexB value)
  cell_a : cells.get? a = some cellA
  cell_b : cells.get? b = some cellB
  ne : a ≠ b
  not_private : cellA.address ≠ none ∨ cellB.address ≠ none
  addresses_ne : value.addresses.1 ≠ value.addresses.2
  prefixlen : value.network.prefixlen = 31
  contains : value.network.contains value.addresses.1 ∧ value.network.contains value.addresses.2

section redeployed
variable {o : Orders} {strategy : DeploymentStrategyKind} {settings : VpnSettings} {cells : Dict ℕ Cell}
  {d : P2pLinksMap}

theorem redeploy_eq_ok (h : redeploy o strategy settings cells = .ok d) :
    d = ∅ ∨ ∃ (m : P2pLinkAllocationMap)
      (graph : DeploymentGraph cells.keys.toFinset (privateCells cells)), m.Allocated ∧
      Deploys m graph.adj d := by
  rw [redeploy, Except.bind_eq_ok_iff] at h
  obtain ⟨m, hnew, h⟩ := h
  rw [Except.bind_eq_ok_iff] at h
  obtain ⟨⟨links, m'⟩, hdeploy, h⟩ := h
  cases h
  rcases Finset.eq_empty_or_nonempty (cells.keys.toFinset \ privateCells cells) with hempty | hpub
  · rw [DeploymentStrategyKind.deploy, hempty] at hdeploy
    cases hdeploy
    exact .inl rfl
  · have hsub : privateCells cells ⊆ cells.keys.toFinset := Finset.filter_subset _ _
    obtain ⟨graph, hgraph⟩ := DeploymentStrategyKind.deploy_realizes o strategy hsub hpub
    rcases hgraph settings.subnet m hnew with ⟨-, res, m₁, hok, hm₁, hdep⟩ | ⟨-, e, herr⟩
    · rw [hok] at hdeploy
      cases hdeploy
      exact .inr ⟨_, graph, hm₁, hdep⟩
    · rw [herr] at hdeploy
      cases hdeploy

theorem exists_cell {id : ℕ} (h : id ∈ cells.keys.toFinset) : ∃ c, cells.get? id = some c :=
  Dict.mem_keys_iff.mp (List.mem_toFinset.mp h)

theorem linkedCells_of_redeploy (h : redeploy o strategy settings cells = .ok d) {a b : ℕ}
    (hab : d.ListsPeer a b) : Nonempty (LinkedCells cells d a b) := by
  rcases redeploy_eq_ok h with rfl | ⟨m, graph, hm, hdep⟩
  · obtain ⟨p, hp, -⟩ := hab
    cases hp
  · obtain ⟨pa, pb, i, j, value, hpa, hpb, hvalue, hlink, hlink'⟩ := hdep.ends hab
    have hwell := hdep.wellFormed
    obtain ⟨ca, hca⟩ := exists_cell ((hwell.vertices a).mp (Dict.mem_keys_iff.mpr ⟨pa, hpa⟩))
    obtain ⟨cb, hcb⟩ := exists_cell ((hwell.vertices b).mp (Dict.mem_keys_iff.mpr ⟨pb, hpb⟩))
    obtain ⟨n, hblock⟩ := hm.isBlock hvalue
    have hpriv := hwell.not_private a b hab
    rw [mem_privateCells hca, mem_privateCells hcb] at hpriv
    have hne : a ≠ b := by
      rintro rfl
      exact hwell.irrefl a hab
    exact ⟨⟨pa, pb, i, j, value, ca, cb, hpa, hpb, hlink, hlink', hca, hcb, hne, hpriv, hblock.fst_ne_snd,
      hblock.prefixlen, hblock.contains⟩⟩

theorem ports_of_redeploy (h : redeploy o strategy settings cells = .ok d) {a : ℕ} {p : DeployedPeer}
    (hp : d.get? a = some p) : p.peers.values.map Link.port = List.range p.peers.size := by
  rcases redeploy_eq_ok h with rfl | ⟨m, graph, -, hdep⟩
  · cases hp
  · exact hdep.wellFormed.ports a p hp

theorem mem_keys_of_redeploy (h : redeploy o strategy settings cells = .ok d) {a : ℕ} {p : DeployedPeer}
    (hp : d.get? a = some p) : a ∈ cells.keys := by
  rcases redeploy_eq_ok h with rfl | ⟨m, graph, -, hdep⟩
  · cases hp
  · exact List.mem_toFinset.mp ((hdep.wellFormed.vertices a).mp (Dict.mem_keys_iff.mpr ⟨p, hp⟩))

theorem get?_peerEndpoints (settings : VpnSettings) (d : P2pLinksMap) {a : ℕ} {c : Cell} (h : cells.get? a = some c) :
    (backboneVpn settings cells d).peerEndpoints.get? a = some c.address := by
  rw [backboneVpn, Dict.get?_map, h]
  rfl

theorem LinkedCells.linkable {a b : ℕ} (l : LinkedCells cells d a b) :
    (backboneVpn settings cells d).Linkable a b (mkLink b a l.indexB l.value) l.cellA.address
      l.cellB.address :=
  ⟨⟨l.peerB, l.get_b, l.link_b⟩, get?_peerEndpoints settings d l.cell_a, get?_peerEndpoints settings d l.cell_b⟩

theorem allLinkable_of_redeploy (settings' : VpnSettings) (h : redeploy o strategy settings cells = .ok d) :
    (backboneVpn settings' cells d).AllLinkable := by
  intro a p b hp hb
  obtain ⟨l⟩ := linkedCells_of_redeploy h ⟨p, hp, hb⟩
  exact ⟨_, _, _, l.linkable⟩

/-! ### Agreement -/

/-- The configurations of the two ends of the link between `a` and `b`, with the entry each has for
the other. -/
structure EndsAgree (settings : VpnSettings) (k : P2pVpnKeyMaterial) (a b : ℕ)
    (addressA addressB : Option String) (indexA indexB : ℕ) (cfgA cfgB : WireGuardConfig)
    (entryA entryB : WireGuardInterfacePeerConfig) : Prop where
  peers_a : cfgA.peers = [entryA] ∧ entryA.id = b
  peers_b : cfgB.peers = [entryB] ∧ entryB.id = a
  keys : ∃ pair, k.pairKeys.get? (pairKey a b) = some pair ∧
    cfgA.intf.privkey = (pick a b a pair).privateKey ∧ entryB.pubkey = (pick a b a pair).publicKey ∧
    cfgB.intf.privkey = (pick a b b pair).privateKey ∧ entryA.pubkey = (pick a b b pair).publicKey
  psk : entryA.psk = entryB.psk
  address_a : entryB.address = cfgA.intf.address
  address_b : entryA.address = cfgB.intf.address
  addresses_ne : cfgA.intf.address ≠ cfgB.intf.address
  network : ∃ network : IPv4Network, network.prefixlen = 31 ∧ network.contains cfgA.intf.address ∧
    network.contains cfgB.intf.address ∧ cfgA.intf.netmask = 31 ∧ cfgB.intf.netmask = 31
  endpoint_a : entryA.endpoint = addressB.map fun host => ⟨host, settings.port + indexB⟩
  endpoint_b : entryB.endpoint = addressA.map fun host => ⟨host, settings.port + indexA⟩
  listen_a : addressA ≠ none → cfgA.intf.port = settings.port + indexA
  listen_b : addressB ≠ none → cfgB.intf.port = settings.port + indexB
  reachable : entryA.endpoint ≠ none ∨ entryB.endpoint ≠ none
  keepalive_a : entryA.keepalive = if addressA = none then some settings.keepalive else none
  keepalive_b : entryB.keepalive = if addressB = none then some settings.keepalive else none

theorem LinkedCells.endsAgree {a b : ℕ} (l : LinkedCells cells d a b) {k : P2pVpnKeyMaterial}
    {cfgA cfgB : WireGuardConfig}
    (hA : (backboneVpn settings cells d).StoredConfig k a (b, mkLink a b l.indexA l.value) cfgA)
    (hB : (backboneVpn settings cells d).StoredConfig k b (a, mkLink b a l.indexB l.value) cfgB) :
    ∃ entryA entryB, EndsAgree settings k a b l.cellA.address l.cellB.address l.indexA l.indexB cfgA cfgB
      entryA entryB := by
  obtain ⟨linkB, keys, psk, endpoint, endpointB, hlink, hkeys, rfl⟩ := hA
  obtain ⟨linkA, keys', psk', endpoint', endpointB', hlink', hkeys', rfl⟩ := hB
  -- both sides read the same entries, addresses and keys
  obtain ⟨p, hp, hpa⟩ := hlink.entry
  obtain ⟨p', hp', hpb⟩ := hlink'.entry
  have hep := hlink.endpoint
  have hepB := hlink.endpointB
  have hep' := hlink'.endpoint
  have hepB' := hlink'.endpointB
  have hgetA := get?_peerEndpoints settings d l.cell_a
  have hgetB := get?_peerEndpoints settings d l.cell_b
  change d.get? b = some p at hp
  change d.get? a = some p' at hp'
  obtain rfl : p = l.peerB := by rw [l.get_b] at hp; exact (Option.some.inj hp).symm
  obtain rfl : p' = l.peerA := by rw [l.get_a] at hp'; exact (Option.some.inj hp').symm
  obtain rfl : linkB = mkLink b a l.indexB l.value := by
    rw [l.link_b] at hpa; exact (Option.some.inj hpa).symm
  obtain rfl : linkA = mkLink a b l.indexA l.value := by
    rw [l.link_a] at hpb; exact (Option.some.inj hpb).symm
  obtain rfl : endpoint = l.cellA.address := by rw [hgetA] at hep; exact (Option.some.inj hep).symm
  obtain rfl : endpointB = l.cellB.address := by rw [hgetB] at hepB; exact (Option.some.inj hepB).symm
  obtain rfl : endpoint' = l.cellB.address := by rw [hgetB] at hep'; exact (Option.some.inj hep').symm
  obtain rfl : endpointB' = l.cellA.address := by
    rw [hgetA] at hepB'; exact (Option.some.inj hepB').symm
  obtain ⟨rfl, rfl⟩ : keys' = keys ∧ psk' = psk := by
    obtain ⟨hk, hp⟩ := hkeys'
    rw [pairKey_comm, hkeys.1] at hk
    rw [pairKey_comm, hkeys.2] at hp
    exact ⟨(Option.some.inj hk).symm, (Option.some.inj hp).symm⟩
  have hport : ∀ (c : Cell) (i j : ℕ), c.address ≠ none → (if truthy c.address then i else j) = i :=
    fun c i j hc => if_pos ((truthy_iff c).mpr hc)
  have hendpoint : ∀ (c : Cell) (n : ℕ), (if truthy c.address then
      c.address.map fun host => (⟨host, n⟩ : Endpoint) else none) = c.address.map fun host => ⟨host, n⟩ := by
    intro c n
    split_ifs with htruthy
    · rfl
    · rw [truthy_iff, not_not] at htruthy
      rw [htruthy]
      rfl
  refine ⟨_, _, ⟨rfl, rfl⟩, ⟨rfl, rfl⟩, ⟨keys', hkeys.1, rfl, ?_, ?_, rfl⟩, rfl, ?_, ?_, ?_, ?_,
    hendpoint _ _, hendpoint _ _, hport _ _ _, hport _ _ _, ?_, rfl, rfl⟩
  · exact congrArg WireGuardKeyPair.publicKey (pick_comm b a a keys')
  · exact congrArg WireGuardKeyPair.privateKey (pick_comm b a b keys')
  · exact pick_comm b a a l.value.addresses
  · exact pick_comm a b b l.value.addresses
  · change pick a b a l.value.addresses ≠ pick b a b l.value.addresses
    rw [pick_comm b a]
    rcases pick_halves l.ne l.value.addresses with ⟨hfst, hsnd⟩ | ⟨hfst, hsnd⟩
    · rw [hfst, hsnd]; exact l.addresses_ne
    · rw [hfst, hsnd]; exact l.addresses_ne.symm
  · refine ⟨l.value.network, l.prefixlen, ?_, ?_, l.prefixlen, l.prefixlen⟩
    · change l.value.network.contains (pick a b a l.value.addresses)
      rcases pick_halves l.ne l.value.addresses with ⟨hfst, -⟩ | ⟨hfst, -⟩
      · rw [hfst]; exact l.contains.1
      · rw [hfst]; exact l.contains.2
    · change l.value.network.contains (pick b a b l.value.addresses)
      rw [pick_comm b a]
      rcases pick_halves l.ne l.value.addresses with ⟨-, hsnd⟩ | ⟨-, hsnd⟩
      · rw [hsnd]; exact l.contains.2
      · rw [hsnd]; exact l.contains.1
  · change (if truthy l.cellB.address then l.cellB.address.map _ else none) ≠ none ∨
      (if truthy l.cellA.address then l.cellA.address.map _ else none) ≠ none
    rw [hendpoint, hendpoint]
    simpa [or_comm] using l.not_private

theorem distinct_interfaces (hfield : settings.interface.fields = 1) {a : ℕ} {p : DeployedPeer}
    (hports : p.peers.values.map Link.port = List.range p.peers.size) {k : P2pVpnKeyMaterial}
    {cfgs : List WireGuardConfig} {c : Cell} (hc : cells.get? a = some c)
    (hstored : List.Forall₂ ((backboneVpn settings cells d).StoredConfig k a) p.peers.entries cfgs) :
    (cfgs.map fun cfg => cfg.intf.name).Nodup ∧
      (c.address ≠ none → (cfgs.map fun cfg => cfg.intf.port).Nodup) := by
  have hrange : p.peers.entries.map (fun x => x.2.port) = List.range p.peers.size := by
    rw [← hports, Dict.values, List.map_map]
    rfl
  have hmap : ∀ {α : Type} (f : WireGuardConfig → α) (g : ℕ → α),
      (∀ x cfg, (backboneVpn settings cells d).StoredConfig k a x cfg → f cfg = g x.2.port) →
      cfgs.map f = (List.range p.peers.size).map g := by
    intro α f g hfg
    rw [← hrange, List.map_map]
    exact map_eq_of_forall₂ hstored hfg
  constructor
  · rw [hmap _ settings.interface.render (by rintro x cfg ⟨_, _, _, _, _, -, -, rfl⟩; rfl)]
    exact List.nodup_range.map (InterfaceTemplate.render_injective hfield)
  · intro haddress
    have hport : ∀ x cfg, (backboneVpn settings cells d).StoredConfig k a x cfg →
        cfg.intf.port = settings.port + x.2.port := by
      rintro x cfg ⟨_, _, _, endpoint, _, hlink, -, rfl⟩
      have hep := hlink.endpoint
      rw [get?_peerEndpoints settings d hc, Option.some.injEq] at hep
      subst hep
      exact if_pos ((truthy_iff c).mpr haddress)
    rw [hmap _ (settings.port + ·) hport]
    exact List.nodup_range.map fun i j h => Nat.add_left_cancel h

/-- What a redeployment and building the backbone configuration leave: every cell has its
configurations, without generating more keys, and those of the two ends of each link are made from
the same data. -/
theorem exists_configs (hd : redeploy o strategy settings cells = .ok d)
    (hfield : settings.interface.fields = 1) (source : KeySource) (k₀ : P2pVpnKeyMaterial) :
    ∃ k, (backboneVpn settings cells d).assertKeys source k₀ = .ok k ∧
      ∀ a p, d.get? a = some p → ∃ cfgs,
        (backboneVpn settings cells d).peerConfig source a k = .ok (cfgs, k) ∧
        List.Forall₂ ((backboneVpn settings cells d).StoredConfig k a) p.peers.entries cfgs := by
  have hall := allLinkable_of_redeploy settings hd
  obtain ⟨k, hassert, -, hholds⟩ :=
    P2pVpnConfig.assertKeys_eq_ok source hfield hall k₀
  refine ⟨k, hassert, fun a p hp => ?_⟩
  have hmem : a ∈ (backboneVpn settings cells d).peerIds :=
    (List.mem_insertionSort _).mpr (mem_keys_of_redeploy hd hp)
  exact P2pVpnConfig.peerConfig_of_holds source hfield hall (hholds a hmem) hp

/-- For every deployment of the cells: after the backbone configuration is built, the configurations
of the two ends of each link agree, and the interfaces of each cell are distinct. -/
theorem backbone_ends_agree (hd : redeploy o strategy settings cells = .ok d)
    (hfield : settings.interface.fields = 1) (source : KeySource) (k₀ : P2pVpnKeyMaterial) :
    ∃ k, (backboneVpn settings cells d).assertKeys source k₀ = .ok k ∧
      (∀ a b, d.ListsPeer a b → ∃ (l : LinkedCells cells d a b) (cfgsA cfgsB : List WireGuardConfig),
        (backboneVpn settings cells d).peerConfig source a k = .ok (cfgsA, k) ∧
        (backboneVpn settings cells d).peerConfig source b k = .ok (cfgsB, k) ∧
        ∃ cfgA ∈ cfgsA, ∃ cfgB ∈ cfgsB, ∃ entryA entryB, EndsAgree settings k a b l.cellA.address
          l.cellB.address l.indexA l.indexB cfgA cfgB entryA entryB) ∧
      (∀ a p c, d.get? a = some p → cells.get? a = some c → ∃ cfgs,
        (backboneVpn settings cells d).peerConfig source a k = .ok (cfgs, k) ∧
        cfgs.length = p.peers.size ∧ (cfgs.map fun cfg => cfg.intf.name).Nodup ∧
        (c.address ≠ none → (cfgs.map fun cfg => cfg.intf.port).Nodup)) := by
  obtain ⟨k, hassert, hcfgs⟩ := exists_configs hd hfield source k₀
  refine ⟨k, hassert, fun a b hab => ?_, fun a p c hp hc => ?_⟩
  · obtain ⟨l⟩ := linkedCells_of_redeploy hd hab
    obtain ⟨cfgsA, hpeerA, hstoredA⟩ := hcfgs a l.peerA l.get_a
    obtain ⟨cfgsB, hpeerB, hstoredB⟩ := hcfgs b l.peerB l.get_b
    obtain ⟨cfgA, hmemA, hcfgA⟩ := exists_of_forall₂ hstoredA (Dict.get?_eq_some_iff.mp l.link_a)
    obtain ⟨cfgB, hmemB, hcfgB⟩ := exists_of_forall₂ hstoredB (Dict.get?_eq_some_iff.mp l.link_b)
    obtain ⟨entryA, entryB, hagree⟩ := l.endsAgree hcfgA hcfgB
    exact ⟨l, cfgsA, cfgsB, hpeerA, hpeerB, cfgA, hmemA, cfgB, hmemB, entryA, entryB, hagree⟩
  · obtain ⟨cfgs, hpeer, hstored⟩ := hcfgs a p hp
    exact ⟨cfgs, hpeer, hstored.length_eq.symm, distinct_interfaces hfield (ports_of_redeploy hd hp) hc hstored⟩

end redeployed

/-! ### Example cells -/

/-- Three cells with an address and one without. -/
def exampleCells : Dict ℕ Cell where
  entries := [(1, ⟨some "a.example.com", [], by decide⟩), (2, ⟨some "b.example.com", [], by decide⟩),
    (3, ⟨none, [], by decide⟩), (4, ⟨some "d.example.com", [], by decide⟩)]
  nodup := by decide

def exampleSettings (interface : InterfaceTemplate) : VpnSettings where
  port := 63450
  subnet := network10 20 (by decide)
  interface := interface
  allowedIps := []
  peerMtu := 1320
  masquerade := false
  forward := true
  tunnel := false
  keepalive := 25

def exampleSource : KeySource := ⟨fun n => ⟨"private" ++ n.repr, "public" ++ n.repr⟩, fun n => "psk" ++ n.repr⟩

/-- With the template `uwg-b{}`, both ends of the link between cells 1 and 3 agree. -/
theorem backbone_ends_agree_example :
    ∃ d k, redeploy .unshuffled .crossed (exampleSettings [some "uwg-b", none]) exampleCells = .ok d ∧
      (backboneVpn (exampleSettings [some "uwg-b", none]) exampleCells d).assertKeys exampleSource ⟨∅, ∅, 0⟩ =
        .ok k ∧
      ∃ (l : LinkedCells exampleCells d 1 3) (cfgA cfgB : WireGuardConfig)
        (entryA entryB : WireGuardInterfacePeerConfig),
        EndsAgree (exampleSettings [some "uwg-b", none]) k 1 3 l.cellA.address l.cellB.address l.indexA
          l.indexB cfgA cfgB entryA entryB := by
  have hd := (rfl : redeploy .unshuffled .crossed (exampleSettings [some "uwg-b", none]) exampleCells = .ok _)
  obtain ⟨k, hk, hlinks, -⟩ := backbone_ends_agree hd (by decide) exampleSource ⟨∅, ∅, 0⟩
  obtain ⟨l, -, -, -, -, cfgA, -, cfgB, -, entryA, entryB, h⟩ := hlinks 1 3 ⟨_, rfl, by decide⟩
  exact ⟨_, k, hd, hk, l, cfgA, cfgB, entryA, entryB, h⟩

/-- With a template that has no field, the interfaces of cell 1 share one name. -/
theorem backbone_names_clash :
    ∃ d k cfgs, redeploy .unshuffled .fullMesh (exampleSettings [some "uwg-b"]) exampleCells = .ok d ∧
      (backboneVpn (exampleSettings [some "uwg-b"]) exampleCells d).assertKeys exampleSource ⟨∅, ∅, 0⟩ =
        .ok k ∧
      (backboneVpn (exampleSettings [some "uwg-b"]) exampleCells d).peerConfig exampleSource 1 k =
        .ok (cfgs, k) ∧
      (cfgs.map fun cfg => cfg.intf.name) = ["uwg-b", "uwg-b", "uwg-b"] :=
  ⟨_, _, _, rfl, rfl, rfl, rfl⟩

end Uno
