import Uno.Registry.Completeness

/-!
# Reachable registries

The states that operations reach when each is followed by `generate_artifacts`. That it returns says that all
configurations were built, so that their keys are there whatever the operation removed (`Sound.generate`): every
reachable state is `Complete`, and its backbone has keys for the links of its deployment only (`LinkKeys`).
-/

namespace Uno

namespace Keymat

variable {m m' : Keymat} {peerIds : List ℕ} {source : ℕ → String} {S : KeyPlace → Prop}

theorem Has.of_asserted (h : m'.Has S) (htidy : m.Tidy) (hsettled : m.Settled)
    (hok : m.assertKeys source peerIds = .ok m') (hnot : ∀ k, S k → ¬ Wanted peerIds k) : m.Has S := by
  obtain ⟨m₁, hassert, htidy', hsettled', hkeys, hpsks⟩ := exists_assertKeys source htidy hsettled peerIds
  obtain rfl : m' = m₁ := Except.ok.inj (hok.symm.trans hassert)
  refine ⟨fun k hk hnone => h.keys k hk ?_, fun p hp hnone => h.psks p hp ?_⟩
  · have hrow := hkeys.other k (hnot k hk)
    rw [get?_table htidy hsettled, get?_table htidy' hsettled', hnone] at hrow
    simpa using hrow
  · rw [← (htidy.psks.get?_table hsettled.psks (0, p))] at hnone
    rw [← (htidy'.psks.get?_table hsettled'.psks (0, p)), hpsks.other _ ?_, hnone]
    rintro ⟨q, hq, heq⟩
    have hpq : p = q := by simpa using heq
    exact hnot _ hp (hpq ▸ hq)

theorem ne_none_of_holds {pubkey : String → String} {vpn : Vpn} {ids : List ℕ} {p : ℕ} {key : AsymmKey} {psk : SymmKey}
    (h : (m.material pubkey vpn ids).Holds p key psk) :
    m.keys.get? (.peer p) ≠ none ∧ m.presharedKeys.content.get? (0, p) ≠ none := by
  obtain ⟨hkey, hpsk⟩ := h
  have hpair : PairedValuesMap.pairKey 0 p = (0, p) := by simp [PairedValuesMap.pairKey]
  change (m.peerKeys.mapEntries _).get? p = _ at hkey
  change (m.presharedKeys.content.mapEntries _).get? _ = _ at hpsk
  rw [Dict.get?_mapEntries] at hkey
  rw [hpair, Dict.get?_mapEntries] at hpsk
  rw [get?_keys_peer]
  exact ⟨fun hnone => by simp [hnone] at hkey, fun hnone => by simp [hnone] at hpsk⟩

end Keymat

namespace RegistryState

variable {setup : Setup} {o : Orders} {s s' t : RegistryState}

/-! ### Runs of `generate_artifacts` that return -/

theorem Sound.prepare (h : s.Sound setup) (hok : s.prepare setup o = .ok s') :
    s'.Sound setup ∧ s'.keys.rootVpn = .load s'.keys.rootVpn.rows ∧
      (∀ c, s'.keys.particlesVpns c = .load (s'.keys.particlesVpns c).rows) ∧ s'.needsRedeployment = false := by
  obtain ⟨keys, hpurge, hok⟩ := Except.bind_eq_ok_iff.mp hok
  obtain ⟨s₂, hredeploy, hok⟩ := Except.bind_eq_ok_iff.mp hok
  obtain ⟨keys', hsave, heq⟩ := Except.bind_eq_ok_iff.mp hok
  obtain rfl := Except.ok.inj heq
  obtain ⟨hsound, hsome, hlinkable, -⟩ := (h.purgeKeys hpurge).1.redeploy hredeploy
  obtain ⟨hsound, -, -, hsettled, ⟨root, -, hload⟩, hparticles⟩ := hsound.save hsome hlinkable hsave
  refine ⟨hsound, ?_, hparticles, hsettled⟩
  show keys'.rootVpn = .load keys'.rootVpn.rows
  rw [hload]
  rfl

/-- Building the configuration of the root VPN finds the keys of the banned cells, which it does not assert. -/
theorem Sound.banned_of_assertKeys (h : s.Sound setup) (hload : s.keys.rootVpn = .load s.keys.rootVpn.rows)
    (hok : s.assertKeys setup = .ok s') (henabled : s.uvn.enableRootVpn) :
    s.keys.rootVpn.Has fun k => ∃ d ∈ s.uvn.excludedCells, k = .peer d.id := by
  obtain ⟨keys, hkeys, hok⟩ := Except.bind_eq_ok_iff.mp hok
  obtain ⟨_, hbuild, -⟩ := Except.bind_eq_ok_iff.mp hok
  unfold RegistryKeys.assertRootKeys RegistryKeys.onlyIf at hkeys
  rw [if_pos (show s.keys.uvn.enableRootVpn = true from henabled)] at hkeys
  obtain ⟨m, hassert, heq⟩ := Except.bind_eq_ok_iff.mp hkeys
  obtain rfl := Except.ok.inj heq
  have hbuild : buildSome (rootVpnConfig setup.settings s.uvn (m.material setup.pubkey .root s.uvn.activeIds)) = .ok () :=
    hbuild
  rw [rootVpnConfig, if_pos henabled] at hbuild
  obtain ⟨r, hbuild, -⟩ := Except.bind_eq_ok_iff.mp hbuild
  have hassigned : ∀ p ∈ s.uvn.sortedCells.map CellRow.id, 0 < p := by
    intro p hp
    obtain ⟨c, hc, rfl⟩ := List.mem_map.mp hp
    exact h.cellIds_pos c (Uvn.mem_sortedCells.mp hc)
  have hkeys := ((CentralizedVpnConfig.exists_build_iff ⟨Uvn.sortedCells_ids_nodup, hassigned⟩).mp ⟨r, hbuild⟩).keys
  have hmem : ∀ d ∈ s.uvn.excludedCells, d.id ∈ s.uvn.sortedCells.map CellRow.id := fun d hd =>
    List.mem_map_of_mem (Uvn.mem_sortedCells.mpr (List.mem_of_mem_filter hd))
  have hhas : m.Has fun k => ∃ d ∈ s.uvn.excludedCells, k = .peer d.id := by
    refine ⟨fun k hk => ?_, fun p hp => ?_⟩
    · obtain ⟨d, hd, rfl⟩ := hk
      obtain ⟨key, psk, hholds⟩ := hkeys d.id (hmem d hd)
      exact (Keymat.ne_none_of_holds hholds).1
    · obtain ⟨d, hd, heq⟩ := hp
      obtain rfl := KeyPlace.peer.inj heq
      obtain ⟨key, psk, hholds⟩ := hkeys d.id (hmem d hd)
      exact (Keymat.ne_none_of_holds hholds).2
  refine hhas.of_asserted h.root.1 (hload ▸ Keymat.settled_load _) hassert fun k hk hwanted => ?_
  -- a banned cell is not active
  obtain ⟨d, hd, rfl⟩ := hk
  obtain ⟨c, hc, heq⟩ := List.mem_map.mp hwanted
  obtain ⟨hrow, hexcluded⟩ := List.mem_filter.mp hd
  obtain ⟨hrow', hactive⟩ := List.mem_filter.mp hc
  obtain rfl := List.inj_on_of_nodup_map s.uvn.cellIds_nodup hrow' hrow heq
  simp [hexcluded] at hactive

theorem Sound.generate (h : s.Sound setup) (hok : s.generate setup o = .ok t) : t.Complete setup := by
  obtain ⟨s₁, s₂, keys, hs₁, hs₂, hsave, rfl, -⟩ := generate_eq_ok hok
  obtain ⟨hsound, hload, hparticles, hsettled⟩ := h.prepare hs₁
  have hprepared : s₁.Prepared setup :=
    ⟨hsound.pending (hsound.banned_of_assertKeys hload hs₂), hload, hparticles, hsettled⟩
  exact (hprepared.assertKeys.2 s₂ hs₂).save hsave

end RegistryState

/-! ### The keys of links -/

namespace P2pVpnKeyMaterial

variable {source : KeySource} {k k' : P2pVpnKeyMaterial} {a b : ℕ}

/-- The pairs with keys. -/
def HasPair (k : P2pVpnKeyMaterial) (pair : ℕ × ℕ) : Prop := pair ∈ k.pairKeys.keys ∨ pair ∈ k.presharedKeys.keys

theorem mem_keys_of_assertPair {α : Type} {generateVal : ℕ → ℕ → StateT ℕ Result α} {d d' : PairedValuesMap α} {n n' : ℕ}
    {r : α × Bool} (h : PairedValuesMap.assertPair generateVal d a b n = .ok ((r, d'), n')) {pair : ℕ × ℕ}
    (hpair : pair ∈ d'.keys) : pair ∈ d.keys ∨ pair = PairedValuesMap.pairKey a b := by
  cases hget : d.get? (PairedValuesMap.pairKey a b) with
  | some v =>
    rw [PairedValuesMap.assertPair_of_get? hget] at h
    obtain ⟨⟨-, rfl⟩, -⟩ := Prod.mk.inj (Except.ok.inj h) |>.imp Prod.mk.inj id
    exact .inl hpair
  | none =>
    rw [PairedValuesMap.assertPair_of_get?_none hget] at h
    obtain ⟨⟨v, n₁⟩, -, heq⟩ := Except.bind_eq_ok_iff.mp h
    obtain ⟨⟨-, rfl⟩, -⟩ := Prod.mk.inj (Except.ok.inj heq) |>.imp Prod.mk.inj id
    rcases Dict.mem_keys_set.mp hpair with rfl | hpair
    · exact .inr rfl
    · exact .inl hpair

theorem hasPair_of_assertPair {r : ((WireGuardKeyPair × WireGuardKeyPair) × String) × Bool}
    (h : k.assertPair source a b = .ok (r, k')) {pair : ℕ × ℕ} (hpair : k'.HasPair pair) :
    k.HasPair pair ∨ pair = PairedValuesMap.pairKey a b := by
  obtain ⟨⟨⟨⟨keys, g⟩, pairKeys⟩, n⟩, hkeys, h⟩ := Except.bind_eq_ok_iff.mp h
  obtain ⟨⟨⟨⟨psk, g'⟩, psks⟩, n'⟩, hpsks, heq⟩ := Except.bind_eq_ok_iff.mp h
  obtain ⟨-, rfl⟩ := Prod.mk.inj (Except.ok.inj heq)
  rcases hpair with hpair | hpair
  · exact (mem_keys_of_assertPair hkeys hpair).imp_left .inl
  · exact (mem_keys_of_assertPair hpsks hpair).imp_left .inr

end P2pVpnKeyMaterial

namespace P2pVpnConfig

variable {source : KeySource} {vpn : P2pVpnConfig} {k k' : P2pVpnKeyMaterial} {a : ℕ}

/-- Keys for links of a deployment only. -/
def OnLinks (d : P2pLinksMap) (k : P2pVpnKeyMaterial) : Prop :=
  ∀ pair, k.HasPair pair → ∃ a b, d.ListsPeer a b ∧ pair = PairedValuesMap.pairKey a b

theorem onLinks_of_linkStep {acc acc' : List WireGuardConfig × P2pVpnKeyMaterial} {x : ℕ × Link}
    (hon : OnLinks vpn.deployment acc.2) (hlists : vpn.deployment.ListsPeer a x.1)
    (h : vpn.linkStep source a acc x = .ok acc') : OnLinks vpn.deployment acc'.2 := by
  unfold linkStep at h
  obtain ⟨_, -, h⟩ := Except.bind_eq_ok_iff.mp h
  obtain ⟨_, -, h⟩ := Except.bind_eq_ok_iff.mp h
  obtain ⟨⟨⟨⟨keys, psk⟩, g⟩, k₁⟩, hassert, h⟩ := Except.bind_eq_ok_iff.mp h
  obtain ⟨_, -, h⟩ := Except.bind_eq_ok_iff.mp h
  obtain ⟨_, -, h⟩ := Except.bind_eq_ok_iff.mp h
  obtain ⟨_, -, h⟩ := Except.bind_eq_ok_iff.mp h
  obtain rfl := Except.ok.inj h
  intro pair hpair
  rcases P2pVpnKeyMaterial.hasPair_of_assertPair hassert hpair with hpair | rfl
  · exact hon pair hpair
  · exact ⟨a, x.1, hlists, rfl⟩

theorem onLinks_of_peerConfig {cfgs : List WireGuardConfig} (hon : OnLinks vpn.deployment k)
    (h : vpn.peerConfig source a k = .ok (cfgs, k')) : OnLinks vpn.deployment k' := by
  unfold peerConfig at h
  cases hget : vpn.deployment.get? a with
  | none =>
    rw [hget] at h
    obtain rfl := (Prod.mk.inj (Except.ok.inj h)).2
    exact hon
  | some p =>
    rw [hget] at h
    refine Fold.foldlM_invariant (P := fun acc => OnLinks vpn.deployment acc.2) (fun acc acc' x hx hacc hstep => ?_) hon h
    exact onLinks_of_linkStep hacc ⟨p, hget, List.mem_map_of_mem hx⟩ hstep

theorem onLinks_of_assertKeys (hon : OnLinks vpn.deployment k) (h : vpn.assertKeys source k = .ok k') :
    OnLinks vpn.deployment k' := by
  refine Fold.foldlM_invariant (P := OnLinks vpn.deployment) (fun k₁ k₂ a _ hk hstep => ?_) hon h
  obtain ⟨⟨cfgs, k₃⟩, hpeer, heq⟩ := Except.bind_eq_ok_iff.mp hstep
  obtain rfl := Except.ok.inj heq
  exact onLinks_of_peerConfig hk hpeer

end P2pVpnConfig

namespace RegistryState

variable {setup : Setup} {o : Orders} {s s' t : RegistryState}

/-- No cell is linked with itself, and the backbone has keys for links of the deployment only. -/
def LinkKeys (s : RegistryState) : Prop :=
  match s.deployment with
  | none => ∀ pair, ¬ s.keys.backboneVpn.HasPair pair
  | some d => (∀ a, ¬ d.ListsPeer a a) ∧ P2pVpnConfig.OnLinks d s.keys.backboneVpn

theorem LinkKeys.congr (h : s.LinkKeys) (hdeployment : s'.deployment = s.deployment)
    (hkeys : s'.keys.backboneVpn = s.keys.backboneVpn) : s'.LinkKeys := by
  unfold LinkKeys
  rw [hdeployment, hkeys]
  exact h

theorem backbone_onlyIf {keys keys' : RegistryKeys} {source : Vpn → ℕ → String}
    (hok : keys.assertRootKeys source = .ok keys') : keys'.backboneVpn = keys.backboneVpn := by
  refine RegistryKeys.onlyIf_invariant (I := fun r => r.backboneVpn = keys.backboneVpn) rfl (fun _ s₁ hstep => ?_) hok
  obtain ⟨m, -, heq⟩ := Except.bind_eq_ok_iff.mp hstep
  obtain rfl := Except.ok.inj heq
  rfl

theorem LinkKeys.redeploy (h : s.LinkKeys) (hok : s.redeployIfNeeded setup o = .ok s') : s'.LinkKeys := by
  unfold redeployIfNeeded at hok
  split_ifs at hok
  · obtain ⟨d, hd, heq⟩ := Except.bind_eq_ok_iff.mp hok
    obtain rfl := Except.ok.inj heq
    refine ⟨fun a hlists => ?_, fun pair hpair => ?_⟩
    · obtain ⟨l⟩ := linkedCells_of_redeploy hd hlists
      exact l.ne rfl
    · rcases hpair with hpair | hpair
      · cases hpair
      · cases hpair
  · obtain rfl := Except.ok.inj hok
    exact h

theorem backbone_save {keys keys' : RegistryKeys} (hok : keys.save = .ok keys') :
    keys'.backboneVpn = keys.backboneVpn := by
  obtain ⟨registry, -, hok⟩ := Except.bind_eq_ok_iff.mp hok
  obtain ⟨root, -, hok⟩ := Except.bind_eq_ok_iff.mp hok
  obtain ⟨particles, -, heq⟩ := Except.bind_eq_ok_iff.mp hok
  obtain rfl := Except.ok.inj heq
  rfl

theorem backbone_purgeKeys {keys keys' : RegistryKeys} (hok : keys.purgeKeys = .ok keys') :
    keys'.backboneVpn = keys.backboneVpn := by
  obtain ⟨root, -, hok⟩ := Except.bind_eq_ok_iff.mp hok
  obtain ⟨particles, -, heq⟩ := Except.bind_eq_ok_iff.mp hok
  obtain rfl := Except.ok.inj heq
  rfl

theorem LinkKeys.assertBackbone (h : s.LinkKeys) (hok : s.assertBackbone setup = .ok s') : s'.LinkKeys := by
  unfold RegistryState.assertBackbone at hok
  cases hdeployment : s.deployment with
  | none =>
    rw [backboneVpn, hdeployment] at hok
    obtain rfl := Except.ok.inj hok
    exact h
  | some d =>
    rw [backboneVpn, hdeployment] at hok
    obtain ⟨k, hk, heq⟩ := Except.bind_eq_ok_iff.mp hok
    obtain rfl := Except.ok.inj heq
    unfold LinkKeys at h ⊢
    simp only [hdeployment] at h ⊢
    exact ⟨h.1, @P2pVpnConfig.onLinks_of_assertKeys _ (Uno.backboneVpn _ _ d) _ _ h.2 hk⟩

theorem LinkKeys.assertKeys (h : s.LinkKeys) (hok : s.assertKeys setup = .ok s') : s'.LinkKeys := by
  obtain ⟨keys, hroot, hok⟩ := Except.bind_eq_ok_iff.mp hok
  obtain ⟨_, -, hok⟩ := Except.bind_eq_ok_iff.mp hok
  obtain ⟨s₁, hbackbone, hok⟩ := Except.bind_eq_ok_iff.mp hok
  obtain ⟨keys', hparticles, hok⟩ := Except.bind_eq_ok_iff.mp hok
  obtain ⟨_, -, heq⟩ := Except.bind_eq_ok_iff.mp hok
  obtain rfl := Except.ok.inj heq
  obtain ⟨particles, -, heq⟩ := Except.bind_eq_ok_iff.mp hparticles
  obtain rfl := Except.ok.inj heq
  have hstart : LinkKeys { s with keys := keys } := h.congr rfl (backbone_onlyIf hroot)
  exact (hstart.assertBackbone hbackbone).congr rfl rfl

theorem LinkKeys.generate (h : s.LinkKeys) (hok : s.generate setup o = .ok t) : t.LinkKeys := by
  obtain ⟨s₁, s₂, keys, hprepare, hassert, hsave, rfl, -⟩ := generate_eq_ok hok
  obtain ⟨keys', hpurge, hprepare⟩ := Except.bind_eq_ok_iff.mp hprepare
  obtain ⟨s₃, hredeploy, hprepare⟩ := Except.bind_eq_ok_iff.mp hprepare
  obtain ⟨keys'', hsave', heq⟩ := Except.bind_eq_ok_iff.mp hprepare
  obtain rfl := Except.ok.inj heq
  have hpurged : LinkKeys { s with keys := keys' } := h.congr rfl (backbone_purgeKeys hpurge)
  have hprepared : LinkKeys { s₃ with keys := keys'', redeploys := false } :=
    (hpurged.redeploy hredeploy).congr rfl (backbone_save hsave')
  exact (hprepared.assertKeys hassert).congr rfl (backbone_save hsave)

/-! ### Reachable states -/

/-- A state that operations reach, each followed by `generate_artifacts`. -/
def Reachable (setup : Setup) (t : RegistryState) : Prop :=
  ∃ owner address enableRootVpn o s₀, (create owner address enableRootVpn).generate setup o = .ok s₀ ∧
    Run.Reaches (step setup) (fun _ _ => True) s₀ t

/-- A reachable state has the keys of all configurations, and of the backbone those of its links only. -/
theorem Reachable.complete (h : t.Reachable setup) : t.Complete setup ∧ t.LinkKeys := by
  obtain ⟨owner, address, enableRootVpn, o, s₀, hinit, hrun⟩ := h
  have hstart : (create owner address enableRootVpn).LinkKeys := by
    intro pair hpair
    rcases hpair with hpair | hpair
    · cases hpair
    · cases hpair
  refine hrun.invariant (I := fun s => s.Complete setup ∧ s.LinkKeys)
    ⟨(pending_create owner address enableRootVpn).sound.generate hinit, hstart.generate hinit⟩ ?_
  rintro s a s' ⟨hs, hlinks⟩ - hstep
  obtain ⟨s₁, happly, hgenerate⟩ := Except.bind_eq_ok_iff.mp hstep
  have hmoves := hs.moves happly
  exact ⟨(hmoves.sound hs).generate hgenerate, (hlinks.congr hmoves.deployment hmoves.backbone).generate hgenerate⟩

end RegistryState

end Uno
