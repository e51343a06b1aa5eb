import Uno.Registry.State
import Uno.Vpn.Ends
import Uno.Lib.Run

/-!
# Completeness of keys

The configuration of the root VPN has a peer for every cell, while its key material asserts the keys of the
active cells only. A cell that is banned keeps the key it had, so that the keys are complete as long as no
operation removes the key of a banned cell (`RegistryAct.Ok`): rekeying or deleting a cell does, and so does
rekeying all of the root VPN. Under that condition the configurations of every state reached find their keys
(`keys_available`).
-/

namespace Uno

/-! ### Keys that are spared -/

namespace Keymat

variable {S S' : KeyPlace → Prop} {m m' : Keymat}

theorem Spares.has (h : m.Spares S m') (hm : m.Has S') : m'.Has fun k => S k ∧ S' k := by
  refine ⟨fun k hk hnone => ?_, fun p hp hnone => ?_⟩
  · obtain ⟨o, ho⟩ := Option.ne_none_iff_exists'.mp (hm.keys k hk.2)
    have hafter := h.keys _ ((h.before.keys k o).mp ho) rfl hk.1
    rw [(h.tidy.keys k o).mpr hafter] at hnone
    cases hnone
  · obtain ⟨keys, hkeys⟩ := Option.ne_none_iff_exists'.mp (hm.psks p hp.2)
    obtain ⟨o, rfl, hrow⟩ := (h.before.psks.content _ keys).mp hkeys
    have hafter := h.psks _ hrow rfl ⟨p, rfl, hp.1⟩
    rw [(h.tidy.psks.content (0, p) [o]).mpr ⟨o, rfl, hafter⟩] at hnone
    cases hnone

theorem Spares.zero' (h : m.Spares S m') : m'.keys.get? (.peer 0) = none := h.get?_eq_none h.zero

end Keymat

namespace RegistryKeys

variable {s s₁ s' : RegistryKeys} {R : KeyPlace → Prop} {P : ℕ → KeyPlace → Prop}

theorem Spares.rekeyUvn (h : Spares R P s s₁) {rootVpn particlesVpn : Bool}
    (hok : s₁.rekeyUvn rootVpn particlesVpn false = .ok s') (hR : rootVpn = true → ∀ k, ¬ R k)
    (hP : ∀ c k, ¬ P c k) : Spares R P s s' := by
  unfold RegistryKeys.rekeyUvn at hok
  split_ifs at hok
  obtain ⟨s₂, hroot, hok⟩ := Except.bind_eq_ok_iff.mp hok
  have h₂ : Spares R P s s₂ := by
    refine onlyIf_invariant (I := Spares R P s) h (fun hb s₃ hstep => ?_) hroot
    obtain ⟨⟨deletes, s₄⟩, hdeletes, hstep⟩ := Except.bind_eq_ok_iff.mp hstep
    obtain ⟨rekeyed, rfl⟩ := dropOrDelete_eq_ok hdeletes
    obtain ⟨⟨n, m⟩, hdrop, heq⟩ := Except.bind_eq_ok_iff.mp hstep
    obtain rfl := Except.ok.inj heq
    exact ⟨(h.root.dropKeys hdrop).mono fun k hk => hR (by simpa using hb) k hk, h.particles, h.backbone, h.registry⟩
  refine onlyIf_invariant (I := Spares R P s) h₂ (fun _ s₃ hstep => ?_) hok
  exact Fold.foldlM_invariant (P := Spares R P s) (fun _ _ c _ hb hstep => hb.dropParticlesKeys hstep (hP c)) h₂ hstep

theorem Opened.uvn_deleteCell (h : s.Opened) {c : ℕ} (hok : s.deleteCell c = .ok s') : s'.uvn = s.uvn.eraseCell c := by
  obtain ⟨s₂, hrekey, hok⟩ := Except.bind_eq_ok_iff.mp hok
  obtain ⟨registry, hdelete, heq⟩ := Except.bind_eq_ok_iff.mp hok
  obtain rfl := Except.ok.inj heq
  have hspares := h.spares.rekeyCell (R := (ScopedOp.deleteCell c).SparesRoot s)
    (P := (ScopedOp.deleteCell c).SparesParticles s) hrekey (fun _ k hk => hk c rfl) fun k hk => hk.1 rfl
  rw [hspares.registry, Registry.deleteCell] at hdelete
  split at hdelete
  · cases hdelete
  · obtain rfl := Except.ok.inj hdelete
    rfl

theorem Opened.uvn_deleteParticle (h : s.Opened) {p : ℕ} (hok : s.deleteParticle p = .ok s') :
    s'.uvn = s.uvn.eraseParticle p := by
  obtain ⟨s₂, hrekey, heq⟩ := Except.bind_eq_ok_iff.mp hok
  obtain rfl := Except.ok.inj heq
  have hspares := h.spares.rekeyParticle (R := (ScopedOp.deleteParticle p).SparesRoot s)
    (P := (ScopedOp.deleteParticle p).SparesParticles s) hrekey fun c k hk => hk.2 p rfl
  show s₂.uvn.eraseParticle p = _
  rw [show s₂.uvn = s.uvn from congrArg Registry.uvn hspares.registry]

end RegistryKeys

/-- Cells are added only with the root VPN enabled. Keys of the root VPN are removed only while no cell is banned,
or with the only one that is. -/
def RegistryAct.Ok (s : RegistryState) : RegistryAct → Prop
  | .addCell _ _ _ => s.uvn.enableRootVpn
  | .rekeyUvn rootVpn _ => s.uvn.enableRootVpn → rootVpn = true → s.uvn.excludedCells = []
  | .rekeyCell _ rootVpn _ => s.uvn.enableRootVpn → rootVpn = true → s.uvn.excludedCells = []
  | .deleteCell c => s.uvn.enableRootVpn → ∀ d ∈ s.uvn.excludedCells, d.id = c
  | _ => True

/-- The places of the root VPN whose keys an operation spares. -/
def RegistryAct.SparesRoot (s : RegistryState) : RegistryAct → KeyPlace → Prop
  | .deleteCell c => (RegistryKeys.ScopedOp.deleteCell c).SparesRoot s.keys
  | .deleteParticle p => (RegistryKeys.ScopedOp.deleteParticle p).SparesRoot s.keys
  | .rekeyUvn rootVpn _ => fun _ => rootVpn = false
  | .rekeyCell _ rootVpn _ => fun _ => rootVpn = false
  | _ => fun _ => True

namespace RegistryState

variable {setup : Setup} {o : Orders} {s s' : RegistryState}

/-! ### The invariant -/

/-- A state that `generate_artifacts` completes: banned cells have their keys of the root VPN. -/
structure Pending (setup : Setup) (s : RegistryState) : Prop where
  root : s.keys.rootVpn.Tidy ∧ s.keys.rootVpn.keys.get? (.peer 0) = none
  particles : ∀ c, (s.keys.particlesVpns c).Tidy ∧ (s.keys.particlesVpns c).keys.get? (.peer 0) = none
  /-- The rows of a cell that was deleted. -/
  gone : ∀ c ∉ s.uvn.allCellIds, (s.keys.particlesVpns c).table.get? (.peer 0) false = none
  cellIds_pos : ∀ c ∈ s.uvn.cellRows, 0 < c.id
  particleIds_pos : ∀ p ∈ s.uvn.particleRows, 0 < p.id
  banned : s.uvn.enableRootVpn → s.keys.rootVpn.Has fun k => ∃ d ∈ s.uvn.excludedCells, k = .peer d.id
  deployed : s.needsRedeployment = false → ∃ vpn, s.backboneVpn setup = some vpn ∧ vpn.AllLinkable

/-- A state between two runs of `generate_artifacts`, whatever keys it has. -/
structure Sound (setup : Setup) (s : RegistryState) : Prop where
  root : s.keys.rootVpn.Tidy ∧ s.keys.rootVpn.keys.get? (.peer 0) = none
  particles : ∀ c, (s.keys.particlesVpns c).Tidy ∧ (s.keys.particlesVpns c).keys.get? (.peer 0) = none
  gone : ∀ c ∉ s.uvn.allCellIds, (s.keys.particlesVpns c).table.get? (.peer 0) false = none
  cellIds_pos : ∀ c ∈ s.uvn.cellRows, 0 < c.id
  particleIds_pos : ∀ p ∈ s.uvn.particleRows, 0 < p.id
  deployed : s.needsRedeployment = false → ∃ vpn, s.backboneVpn setup = some vpn ∧ vpn.AllLinkable

theorem Pending.sound (h : s.Pending setup) : s.Sound setup :=
  ⟨h.root, h.particles, h.gone, h.cellIds_pos, h.particleIds_pos, h.deployed⟩

theorem Sound.pending (h : s.Sound setup)
    (hbanned : s.uvn.enableRootVpn → s.keys.rootVpn.Has fun k => ∃ d ∈ s.uvn.excludedCells, k = .peer d.id) :
    s.Pending setup :=
  ⟨h.root, h.particles, h.gone, h.cellIds_pos, h.particleIds_pos, hbanned, h.deployed⟩

/-- A state before `assert_keys`: the rows are saved, and the backbone is deployed. -/
structure Prepared (setup : Setup) (s : RegistryState) : Prop extends Pending setup s where
  rootLoaded : s.keys.rootVpn = .load s.keys.rootVpn.rows
  particlesLoaded : ∀ c, s.keys.particlesVpns c = .load (s.keys.particlesVpns c).rows
  settled : s.needsRedeployment = false

/-- The keys that configurations look up are there. -/
structure KeysKept (setup : Setup) (s : RegistryState) : Prop where
  root : s.uvn.enableRootVpn → s.keys.rootVpn.Has (Keymat.Wanted s.uvn.allCellIds)
  particles : ∀ c ∈ s.uvn.particlesCellIds setup.settings,
    (s.keys.particlesVpns c).Has (Keymat.Wanted s.uvn.activeParticleIds)
  links : ∀ vpn, s.backboneVpn setup = some vpn → ∀ a ∈ vpn.peerIds, vpn.HoldsLinks s.keys.backboneVpn a

/-- A state after `assert_keys`. -/
structure Asserted (setup : Setup) (s : RegistryState) : Prop extends Pending setup s where
  kept : s.KeysKept setup
  settled : s.needsRedeployment = false

/-- A state after `generate_artifacts`. -/
structure Complete (setup : Setup) (s : RegistryState) : Prop extends Prepared setup s where
  kept : s.KeysKept setup

/-! ### Purging and saving -/

theorem spares_purge {m m' : Keymat} {ids : List ℕ} (htidy : m.Tidy) (hzero : m.keys.get? (.peer 0) = none)
    (hok : m.purge ids = .ok m') : m.Spares (fun k => ¬ k.Gone ids) m' := by
  obtain ⟨⟨gone, m₁⟩, hpurge, heq⟩ := Except.bind_eq_ok_iff.mp hok
  obtain rfl := Except.ok.inj heq
  exact (Keymat.Spares.refl htidy hzero).purgeGonePeers hpurge fun k hk hgone => absurd hgone hk

theorem Sound.purgeKeys (h : s.Sound setup) {keys : RegistryKeys} (hok : s.keys.purgeKeys = .ok keys) :
    Sound setup { s with keys := keys } ∧ s.keys.rootVpn.Spares (fun k => ¬ k.Gone s.uvn.allCellIds) keys.rootVpn ∧
      keys.uvn = s.uvn ∧ keys.backboneVpn = s.keys.backboneVpn := by
  obtain ⟨root, hroot, hok⟩ := Except.bind_eq_ok_iff.mp hok
  obtain ⟨particles, hparticles, heq⟩ := Except.bind_eq_ok_iff.mp hok
  obtain rfl := Except.ok.inj heq
  obtain ⟨hmem, hother⟩ := (Fold.foldlM_update_iff (fun _ m => Keymat.purge m s.uvn.allParticleIds)
    s.uvn.allCellIds_nodup).mp hparticles
  have hspares := spares_purge h.root.1 h.root.2 hroot
  refine ⟨⟨⟨hspares.tidy, hspares.zero'⟩, fun c => ?_, fun c hc => ?_, h.cellIds_pos, h.particleIds_pos, h.deployed⟩,
    hspares, rfl, rfl⟩
  · show (particles c).Tidy ∧ (particles c).keys.get? (.peer 0) = none
    by_cases hc : c ∈ s.uvn.allCellIds
    · have hspares := spares_purge (h.particles c).1 (h.particles c).2 (hmem c hc)
      exact ⟨hspares.tidy, hspares.zero'⟩
    · rw [hother c hc]
      exact h.particles c
  · show (particles c).table.get? (.peer 0) false = none
    rw [hother c hc]
    exact h.gone c hc

theorem Pending.purgeKeys (h : s.Pending setup) {keys : RegistryKeys} (hok : s.keys.purgeKeys = .ok keys) :
    Pending setup { s with keys := keys } := by
  obtain ⟨hsound, hspares, huvn, -⟩ := h.sound.purgeKeys hok
  refine hsound.pending fun henabled => ?_
  show keys.rootVpn.Has fun k => ∃ d ∈ keys.uvn.excludedCells, k = .peer d.id
  have henabled : keys.uvn.enableRootVpn = true := henabled
  rw [huvn] at henabled ⊢
  refine (hspares.has (h.banned henabled)).mono fun k hk => ⟨?_, hk⟩
  obtain ⟨d, hd, rfl⟩ := hk
  have hmem : d.id ∈ s.uvn.allCellIds := List.mem_map_of_mem (Uvn.mem_allCells.mpr (List.mem_of_mem_filter hd))
  exact fun hgone => hgone hmem

theorem Sound.redeploy (h : s.Sound setup) (hok : s.redeployIfNeeded setup o = .ok s') :
    s'.Sound setup ∧ s'.deployment ≠ none ∧ (∃ vpn, s'.backboneVpn setup = some vpn ∧ vpn.AllLinkable) ∧
      s'.uvn = s.uvn ∧ s'.keys.rootVpn = s.keys.rootVpn ∧ s'.keys.particlesVpns = s.keys.particlesVpns := by
  unfold redeployIfNeeded at hok
  by_cases hneeds : s.needsRedeployment = true
  · rw [if_pos hneeds] at hok
    obtain ⟨d, hd, heq⟩ := Except.bind_eq_ok_iff.mp hok
    obtain rfl := Except.ok.inj heq
    have hlinkable := allLinkable_of_redeploy setup.settings.backboneVpn hd
    exact ⟨⟨h.root, h.particles, h.gone, h.cellIds_pos, h.particleIds_pos, fun _ => ⟨_, rfl, hlinkable⟩⟩, nofun,
      ⟨_, rfl, hlinkable⟩, rfl, rfl, rfl⟩
  · rw [if_neg hneeds] at hok
    obtain rfl := Except.ok.inj hok
    have hsettled : s.needsRedeployment = false := by simpa using hneeds
    have hsome : s.deployment ≠ none := fun hnone => by simp [needsRedeployment, hnone] at hsettled
    exact ⟨h, hsome, h.deployed hsettled, rfl, rfl, rfl⟩

theorem Pending.redeploy (h : s.Pending setup) (hok : s.redeployIfNeeded setup o = .ok s') :
    s'.Pending setup ∧ s'.deployment ≠ none ∧ ∃ vpn, s'.backboneVpn setup = some vpn ∧ vpn.AllLinkable := by
  obtain ⟨hsound, hsome, hlinkable, huvn, hroot, -⟩ := h.sound.redeploy hok
  refine ⟨hsound.pending ?_, hsome, hlinkable⟩
  rw [huvn, hroot]
  exact h.banned

theorem Sound.save (h : s.Sound setup) (hsome : s.deployment ≠ none)
    (hlinkable : ∃ vpn, s.backboneVpn setup = some vpn ∧ vpn.AllLinkable) {keys : RegistryKeys}
    (hok : s.keys.save = .ok keys) :
    Sound setup { s with keys := keys, redeploys := false } ∧ keys.uvn = s.uvn ∧
      keys.backboneVpn = s.keys.backboneVpn ∧ needsRedeployment { s with redeploys := false } = false ∧
      (∃ root, s.keys.rootVpn.save = .ok root ∧ keys.rootVpn = .load root.rows) ∧
      ∀ c, keys.particlesVpns c = .load (keys.particlesVpns c).rows := by
  obtain ⟨registry, hregistry, hok⟩ := Except.bind_eq_ok_iff.mp hok
  obtain ⟨root, hroot, hok⟩ := Except.bind_eq_ok_iff.mp hok
  obtain ⟨particles, hparticles, heq⟩ := Except.bind_eq_ok_iff.mp hok
  obtain rfl := Except.ok.inj heq
  obtain ⟨hmem, hother⟩ := (Fold.foldlM_update_iff (fun _ m => Keymat.save m) s.uvn.allCellIds_nodup).mp hparticles
  have huvn : registry.uvn = s.uvn := (Registry.save_eq_ok hregistry).1
  have hsettled : needsRedeployment { s with redeploys := false } = false := by
    simpa [needsRedeployment, Option.isNone_eq_false_iff, Option.isSome_iff_ne_none] using hsome
  have hzero : (Keymat.load root.rows).keys.get? (.peer 0) = none := by
    rw [Keymat.get?_keys_load_save h.root.1 hroot]
    exact h.root.2
  refine ⟨⟨⟨Keymat.tidy_load _, hzero⟩, fun c => ⟨Keymat.tidy_load _, ?_⟩, ?_, ?_, ?_, fun _ => ?_⟩, huvn, rfl, hsettled,
    ⟨root, hroot, rfl⟩, fun _ => rfl⟩
  · by_cases hc : c ∈ s.uvn.allCellIds
    · show (Keymat.load (particles c).rows).keys.get? (.peer 0) = none
      rw [Keymat.get?_keys_load_save (h.particles c).1 (hmem c hc)]
      exact (h.particles c).2
    · show (Keymat.load (particles c).rows).keys.get? (.peer 0) = none
      rw [hother c hc, ← Option.map_eq_none_iff (f := KeyObject.value),
        ← Keymat.get?_table (Keymat.tidy_load _) (Keymat.settled_load _)]
      exact h.gone c hc
  · show ∀ c ∉ registry.uvn.allCellIds, (Keymat.load (particles c).rows).table.get? (.peer 0) false = none
    intro c hc
    rw [huvn] at hc
    rw [hother c hc]
    exact h.gone c hc
  · show ∀ c ∈ registry.uvn.cellRows, 0 < c.id
    rw [huvn]
    exact h.cellIds_pos
  · show ∀ p ∈ registry.uvn.particleRows, 0 < p.id
    rw [huvn]
    exact h.particleIds_pos
  · show ∃ vpn, s.deployment.map (Uno.backboneVpn _ registry.uvn.backboneCells) = some vpn ∧ vpn.AllLinkable
    rw [huvn]
    exact hlinkable

theorem Pending.save (h : s.Pending setup) (hsome : s.deployment ≠ none)
    (hlinkable : ∃ vpn, s.backboneVpn setup = some vpn ∧ vpn.AllLinkable) {keys : RegistryKeys}
    (hok : s.keys.save = .ok keys) : Prepared setup { s with keys := keys, redeploys := false } := by
  obtain ⟨hsound, huvn, -, hsettled, ⟨root, hroot, hload⟩, hparticles⟩ := h.sound.save hsome hlinkable hok
  refine ⟨hsound.pending ?_, ?_, hparticles, hsettled⟩
  · show keys.uvn.enableRootVpn → keys.rootVpn.Has fun k => ∃ d ∈ keys.uvn.excludedCells, k = .peer d.id
    rw [huvn, hload]
    exact fun henabled => (h.banned henabled).load_save h.root.1 hroot
  · show keys.rootVpn = .load keys.rootVpn.rows
    rw [hload]
    rfl

/-! ### Asserting keys -/

theorem keysComplete_root {u : Uvn} {m : Keymat} {ids : List ℕ} {v : CentralizedVpnConfig}
    (hkeys : u.enableRootVpn → m.Has (Keymat.Wanted u.allCellIds)) (hpos : ∀ c ∈ u.cellRows, 0 < c.id)
    (hv : rootVpnConfig setup.settings u (m.material setup.pubkey .root ids) = some v) :
    v.KeysComplete ∧ ∀ p ∈ v.peerIds, 0 < p := by
  unfold rootVpnConfig at hv
  split_ifs at hv with henabled
  obtain rfl := Option.some.inj hv
  have hhas := hkeys henabled
  refine ⟨⟨hhas.rootKey_ne_none _ _ trivial _, fun p hp => hhas.exists_holds _ _ ?_ _⟩, fun p hp => ?_⟩
  · obtain ⟨c, hc, rfl⟩ := List.mem_map.mp hp
    exact List.mem_map_of_mem (Uvn.mem_allCells.mpr (Uvn.mem_sortedCells.mp hc))
  · obtain ⟨c, hc, rfl⟩ := List.mem_map.mp hp
    exact hpos c (Uvn.mem_sortedCells.mp hc)

theorem keysComplete_particles {u : Uvn} {m : Keymat} {vpn : Vpn} {ids : List ℕ} {c : CellRow} {v : CentralizedVpnConfig}
    (hkeys : c.enableParticlesVpn setup.settings → m.Has (Keymat.Wanted u.activeParticleIds))
    (hpos : ∀ p ∈ u.particleRows, 0 < p.id)
    (hv : Uno.particlesVpn setup.settings u c (m.material setup.pubkey vpn ids) = some v) :
    v.KeysComplete ∧ ∀ p ∈ v.peerIds, 0 < p := by
  unfold Uno.particlesVpn at hv
  split_ifs at hv with henabled
  obtain rfl := Option.some.inj hv
  have hhas := hkeys henabled
  refine ⟨⟨hhas.rootKey_ne_none _ _ trivial _, fun p hp => hhas.exists_holds _ _ ?_ _⟩, fun p hp => ?_⟩
  · exact (List.mem_insertionSort _).mp hp
  · obtain ⟨q, hq, rfl⟩ := List.mem_map.mp ((List.mem_insertionSort _).mp hp)
    exact hpos q (List.mem_of_mem_filter hq)

theorem avoids_buildSome {v? : Option CentralizedVpnConfig}
    (h : ∀ v, v? = some v → v.KeysComplete ∧ ∀ p ∈ v.peerIds, 0 < p) :
    Except.Avoids Exn.IsKeyError (buildSome v?) := by
  cases v? with
  | none => exact .of_eq_ok rfl
  | some v =>
    obtain ⟨hkeys, hpos⟩ := h v rfl
    exact (hkeys.avoids_build hpos).bind fun _ _ => .of_eq_ok rfl

theorem Prepared.exists_assertRootKeys (h : s.Prepared setup) :
    ∃ m : Keymat, s.keys.assertRootKeys setup.source = .ok { s.keys with rootVpn := m } ∧ m.Tidy ∧
      m.keys.get? (.peer 0) = none ∧ (s.uvn.enableRootVpn → m.Has (Keymat.Wanted s.uvn.allCellIds)) := by
  unfold RegistryKeys.assertRootKeys RegistryKeys.onlyIf
  by_cases henabled : s.uvn.enableRootVpn = true
  · have hsettled : s.keys.rootVpn.Settled := h.rootLoaded ▸ Keymat.settled_load _
    obtain ⟨m, hassert, -⟩ := Keymat.exists_assertKeys (setup.source .root) h.root.1 hsettled s.uvn.activeIds
    obtain ⟨htidy, -, hhas, hother⟩ := (h.banned henabled).of_assertKeys h.root.1 hsettled hassert
    refine ⟨m, ?_, htidy, hother _ (fun hzero => ?_) h.root.2, fun _ => hhas.mono fun k hk => ?_⟩
    · show (if s.uvn.enableRootVpn = true then _ else _) = _
      rw [if_pos henabled]
      show (s.keys.rootVpn.assertKeys _ s.uvn.activeIds >>= _) = _
      rw [hassert]
      rfl
    · obtain ⟨c, hc, heq⟩ := List.mem_map.mp hzero
      have hpos := h.cellIds_pos c (List.mem_of_mem_filter hc)
      omega
    · cases k with
      | root => exact .inr trivial
      | peer p =>
        obtain ⟨c, hc, rfl⟩ := List.mem_map.mp hk
        rcases List.mem_append.mp hc with hc | hc
        · exact .inr (List.mem_map_of_mem hc)
        · exact .inl ⟨c, hc, rfl⟩
  · refine ⟨s.keys.rootVpn, ?_, h.root.1, h.root.2, fun h => absurd h henabled⟩
    show (if s.uvn.enableRootVpn = true then _ else _) = _
    rw [if_neg henabled]

theorem Prepared.exists_assertParticlesKeys (h : s.Prepared setup) (keys : RegistryKeys) (huvn : keys.uvn = s.uvn)
    (hkeys : keys.particlesVpns = s.keys.particlesVpns) :
    ∃ particles : ℕ → Keymat, keys.assertParticlesKeys setup.settings setup.source =
        .ok { keys with particlesVpns := particles } ∧
      (∀ c, (particles c).Tidy ∧ (particles c).keys.get? (.peer 0) = none) ∧
      (∀ c ∈ s.uvn.particlesCellIds setup.settings, (particles c).Has (Keymat.Wanted s.uvn.activeParticleIds)) ∧
      ∀ c ∉ s.uvn.particlesCellIds setup.settings, particles c = s.keys.particlesVpns c := by
  have hsettled : ∀ c, (s.keys.particlesVpns c).Settled := fun c => h.particlesLoaded c ▸ Keymat.settled_load _
  have hnodup : (s.uvn.particlesCellIds setup.settings).Nodup :=
    s.uvn.cellIds_nodup.sublist ((List.filter_sublist.trans List.filter_sublist).map _)
  obtain ⟨particles, hfold, hmem, hother⟩ := Fold.exists_foldlM_update
    (fun c m => Keymat.assertKeys (setup.source (.particles c)) m s.uvn.activeParticleIds) hnodup
    (g := s.keys.particlesVpns) fun c _ => by
      obtain ⟨m, hm, -⟩ := Keymat.exists_assertKeys (setup.source (.particles c)) (h.particles c).1 (hsettled c)
        s.uvn.activeParticleIds
      exact ⟨m, hm⟩
  have hasserted : ∀ c ∈ s.uvn.particlesCellIds setup.settings, (particles c).Tidy ∧
      (particles c).keys.get? (.peer 0) = none ∧ (particles c).Has (Keymat.Wanted s.uvn.activeParticleIds) := by
    intro c hc
    have hnone : (s.keys.particlesVpns c).Has fun _ => False := ⟨fun _ hk => hk.elim, fun _ hp => hp.elim⟩
    obtain ⟨htidy, -, hhas, hkept⟩ := hnone.of_assertKeys (h.particles c).1 (hsettled c) (hmem c hc)
    refine ⟨htidy, hkept _ (fun hzero => ?_) (h.particles c).2, hhas.mono fun k hk => .inr hk⟩
    obtain ⟨p, hp, heq⟩ := List.mem_map.mp hzero
    have hpos := h.particleIds_pos p (List.mem_of_mem_filter hp)
    omega
  refine ⟨particles, ?_, fun c => ?_, fun c hc => (hasserted c hc).2.2, hother⟩
  · unfold RegistryKeys.assertParticlesKeys
    rw [huvn, hkeys, hfold]
    rfl
  · by_cases hc : c ∈ s.uvn.particlesCellIds setup.settings
    · exact ⟨(hasserted c hc).1, (hasserted c hc).2.1⟩
    · rw [hother c hc]
      exact h.particles c

theorem Prepared.assertKeys (h : s.Prepared setup) : Except.Avoids Exn.IsKeyError (s.assertKeys setup) ∧
    ∀ s', s.assertKeys setup = .ok s' → s'.Asserted setup := by
  obtain ⟨m, hroot, htidy, hzero, hhas⟩ := h.exists_assertRootKeys
  obtain ⟨vpn, hvpn, hlinkable⟩ := h.deployed h.settled
  have hbuild : Except.Avoids Exn.IsKeyError
      (buildSome (rootVpn setup { s with keys := { s.keys with rootVpn := m } })) :=
    avoids_buildSome fun v hv => keysComplete_root hhas h.cellIds_pos hv
  have hparticles := fun k : P2pVpnKeyMaterial =>
    h.exists_assertParticlesKeys { s.keys with rootVpn := m, backboneVpn := k } rfl rfl
  have hbuilds : ∀ (k : P2pVpnKeyMaterial) (particles : ℕ → Keymat),
      (∀ c ∈ s.uvn.particlesCellIds setup.settings, (particles c).Has (Keymat.Wanted s.uvn.activeParticleIds)) →
      ∀ c ∈ s.uvn.cells, ∀ v, particlesVpn setup { s with
          keys := { s.keys with rootVpn := m, backboneVpn := k, particlesVpns := particles } } c = some v →
        v.KeysComplete ∧ ∀ p ∈ v.peerIds, 0 < p := by
    intro k particles hall c hc v hv
    refine keysComplete_particles (fun henabled => hall _ ?_) h.particleIds_pos hv
    exact List.mem_map_of_mem (List.mem_filter.mpr ⟨hc, henabled⟩)
  have hbackbone : assertBackbone setup { s with keys := { s.keys with rootVpn := m } } =
      (vpn.assertKeys setup.linkSource s.keys.backboneVpn >>= fun k =>
        .ok { s with keys := { s.keys with rootVpn := m, backboneVpn := k } }) := by
    unfold assertBackbone
    rw [show backboneVpn setup { s with keys := { s.keys with rootVpn := m } } = some vpn from hvpn]
  unfold RegistryState.assertKeys
  rw [hroot, Except.ok_bind]
  simp only [hbackbone]
  constructor
  · refine hbuild.bind fun _ _ => .bind ((hlinkable.avoids_assertKeys _ _).bind fun k _ => .of_eq_ok rfl) fun s₁ hs₁ => ?_
    obtain ⟨k, -, heq⟩ := Except.bind_eq_ok_iff.mp hs₁
    obtain rfl := Except.ok.inj heq
    obtain ⟨particles, hok, -, hall, -⟩ := hparticles k
    simp only [hok, Except.ok_bind]
    refine .bind (Except.Avoids.forM fun c hc => ?_) fun _ _ => .of_eq_ok rfl
    exact avoids_buildSome fun v hv => hbuilds k particles hall c hc v hv
  · intro s' hok
    obtain ⟨_, -, hok⟩ := Except.bind_eq_ok_iff.mp hok
    obtain ⟨s₁, hs₁, hok⟩ := Except.bind_eq_ok_iff.mp hok
    obtain ⟨k, hk, heq⟩ := Except.bind_eq_ok_iff.mp hs₁
    obtain rfl := Except.ok.inj heq
    obtain ⟨particles, hassert, htidy', hall, hother⟩ := hparticles k
    simp only [hassert, Except.ok_bind] at hok
    obtain ⟨_, -, heq⟩ := Except.bind_eq_ok_iff.mp hok
    obtain rfl := Except.ok.inj heq
    have hsub : ∀ c ∈ s.uvn.particlesCellIds setup.settings, c ∈ s.uvn.allCellIds := by
      intro c hc
      obtain ⟨d, hd, rfl⟩ := List.mem_map.mp hc
      exact Uvn.mem_allCellIds_of_active (List.mem_map_of_mem (List.mem_of_mem_filter hd))
    refine ⟨⟨⟨htidy, hzero⟩, htidy', fun c hc => ?_, h.cellIds_pos, h.particleIds_pos, fun henabled =>
      (hhas henabled).mono fun j hj => ?_, h.deployed⟩, ⟨hhas, hall, fun vpn' hvpn' a ha => ?_⟩, h.settled⟩
    · show (particles c).table.get? (.peer 0) false = none
      rw [hother c fun hmem => hc (hsub c hmem)]
      exact h.gone c hc
    · obtain ⟨d, hd, rfl⟩ := hj
      exact List.mem_map_of_mem (Uvn.mem_allCells.mpr (List.mem_of_mem_filter hd))
    · obtain rfl : vpn = vpn' := Option.some.inj (hvpn.symm.trans hvpn')
      exact (P2pVpnConfig.assertKeys_holds hk).2 a ha

/-! ### The whole pass -/

theorem Asserted.save (h : s.Asserted setup) {keys : RegistryKeys} (hok : s.keys.save = .ok keys) :
    Complete setup { s with keys := keys } := by
  have hsome : s.deployment ≠ none := fun hnone => by
    have hsettled := h.settled
    simp [needsRedeployment, hnone] at hsettled
  have hprepared := h.toPending.save hsome (h.deployed h.settled) hok
  have hsame : { s with keys := keys, redeploys := false } = { s with keys := keys } := by
    have hsettled := h.settled
    rw [needsRedeployment, Bool.or_eq_false_iff] at hsettled
    rw [← hsettled.2]
  rw [hsame] at hprepared
  refine ⟨hprepared, ?_⟩
  obtain ⟨registry, hregistry, hok⟩ := Except.bind_eq_ok_iff.mp hok
  obtain ⟨root, hroot, hok⟩ := Except.bind_eq_ok_iff.mp hok
  obtain ⟨particles, hparticles, heq⟩ := Except.bind_eq_ok_iff.mp hok
  obtain rfl := Except.ok.inj heq
  obtain ⟨hmem, -⟩ := (Fold.foldlM_update_iff (fun _ m => Keymat.save m) s.uvn.allCellIds_nodup).mp hparticles
  have huvn : registry.uvn = s.uvn := (Registry.save_eq_ok hregistry).1
  refine ⟨?_, ?_, ?_⟩
  · show registry.uvn.enableRootVpn → (Keymat.load root.rows).Has (Keymat.Wanted registry.uvn.allCellIds)
    rw [huvn]
    exact fun henabled => (h.kept.root henabled).load_save h.root.1 hroot
  · show ∀ c ∈ registry.uvn.particlesCellIds setup.settings,
      (Keymat.load (particles c).rows).Has (Keymat.Wanted registry.uvn.activeParticleIds)
    rw [huvn]
    intro c hc
    obtain ⟨d, hd, rfl⟩ := List.mem_map.mp hc
    have hd : d.id ∈ s.uvn.allCellIds := Uvn.mem_allCellIds_of_active (List.mem_map_of_mem (List.mem_of_mem_filter hd))
    exact (h.kept.particles _ hc).load_save (h.particles _).1 (hmem _ hd)
  · show ∀ vpn, s.deployment.map (Uno.backboneVpn _ registry.uvn.backboneCells) = some vpn → _
    rw [huvn]
    exact h.kept.links

/-- After an operation that spares the keys of banned cells, the key pass raises no key error, and it leaves all
keys that configurations look up. -/
theorem Pending.generate (h : s.Pending setup) :
    (∀ s₁, s.prepare setup o = .ok s₁ → Except.Avoids Exn.IsKeyError (s₁.assertKeys setup) ∧
      ∀ s₂ keys, s₁.assertKeys setup = .ok s₂ → s₂.keys.save = .ok keys → Complete setup { s₂ with keys := keys }) ∧
      ∀ s', s.generate setup o = .ok s' → s'.Complete setup := by
  have hprepare : ∀ s₁, s.prepare setup o = .ok s₁ → s₁.Prepared setup := by
    intro s₁ hok
    obtain ⟨keys, hpurge, hok⟩ := Except.bind_eq_ok_iff.mp hok
    obtain ⟨s₂, hredeploy, hok⟩ := Except.bind_eq_ok_iff.mp hok
    obtain ⟨keys', hsave, heq⟩ := Except.bind_eq_ok_iff.mp hok
    obtain rfl := Except.ok.inj heq
    obtain ⟨hpending, hsome, hlinkable⟩ := (h.purgeKeys hpurge).redeploy hredeploy
    exact hpending.save hsome hlinkable hsave
  have hsave : ∀ s₁ s₂ keys, s.prepare setup o = .ok s₁ → s₁.assertKeys setup = .ok s₂ → s₂.keys.save = .ok keys →
      Complete setup { s₂ with keys := keys } := fun s₁ s₂ keys hs₁ hs₂ hsave =>
    ((hprepare s₁ hs₁).assertKeys.2 s₂ hs₂).save hsave
  refine ⟨fun s₁ hs₁ => ⟨(hprepare s₁ hs₁).assertKeys.1, fun s₂ keys hs₂ => hsave s₁ s₂ keys hs₁ hs₂⟩, fun s' hok => ?_⟩
  obtain ⟨s₁, s₂, keys, hs₁, hs₂, hkeys, rfl, -⟩ := generate_eq_ok hok
  exact hsave s₁ s₂ keys hs₁ hs₂ hkeys

/-! ### The operations -/

theorem Complete.opened (h : s.Complete setup) : s.keys.Opened := by
  have hzero : ∀ m : Keymat, m = .load m.rows → m.keys.get? (.peer 0) = none → m.table.get? (.peer 0) false = none := by
    intro m hm hnone
    have htidy : m.Tidy := hm ▸ Keymat.tidy_load _
    rw [Keymat.get?_table htidy (hm ▸ Keymat.settled_load _), hnone]
    rfl
  exact ⟨h.rootLoaded, h.particlesLoaded, hzero _ h.rootLoaded h.root.2,
    fun c => hzero _ (h.particlesLoaded c) (h.particles c).2⟩

/-- What an operation does after `generate_artifacts`: it spares the keys of the root VPN at some places. -/
structure Moves (s s' : RegistryState) (R : KeyPlace → Prop) : Prop where
  spares : ∃ P, s.keys.Spares R P { s'.keys with registry := s.keys.registry }
  cellIds_pos : ∀ c ∈ s'.uvn.cellRows, 0 < c.id
  particleIds_pos : ∀ p ∈ s'.uvn.particleRows, 0 < p.id
  on : s'.uvn.enableRootVpn = s.uvn.enableRootVpn
  banned : ∀ d ∈ s'.uvn.excludedCells, d.id ∈ s.uvn.allCellIds
  deployment : s'.deployment = s.deployment
  deployed : s'.redeploys = false → s'.uvn.backboneCells = s.uvn.backboneCells

theorem Moves.backbone {R : KeyPlace → Prop} (h : Moves s s' R) : s'.keys.backboneVpn = s.keys.backboneVpn := by
  obtain ⟨P, hspares⟩ := h.spares
  exact hspares.backbone

theorem Moves.sound {R : KeyPlace → Prop} (hmoves : Moves s s' R) (h : s.Complete setup) : s'.Sound setup := by
  obtain ⟨P, hspares⟩ := hmoves.spares
  refine ⟨⟨hspares.root.tidy, hspares.root.zero'⟩, fun c => ⟨(hspares.particles c).tidy, (hspares.particles c).zero'⟩,
    fun c hc => ?_, hmoves.cellIds_pos, hmoves.particleIds_pos, fun hsettled => ?_⟩
  · refine FlaggedTable.get?_eq_none_iff.mpr fun r hr hkey hflag => ?_
    exact FlaggedTable.get?_eq_none_iff.mp (h.opened.particles_zero c) r ((hspares.particles c).rows r hr hflag) hkey hflag
  · rw [needsRedeployment, Bool.or_eq_false_iff] at hsettled
    unfold backboneVpn
    rw [hmoves.deployment, hmoves.deployed hsettled.2]
    exact h.deployed h.settled

theorem Moves.pending {R : KeyPlace → Prop} (hmoves : Moves s s' R) (h : s.Complete setup)
    (hbanned : s.uvn.enableRootVpn → ∀ d ∈ s'.uvn.excludedCells, R (.peer d.id)) : s'.Pending setup := by
  obtain ⟨P, hspares⟩ := hmoves.spares
  refine (hmoves.sound h).pending fun henabled => ?_
  have henabled' : s.uvn.enableRootVpn = true := hmoves.on ▸ henabled
  refine (hspares.root.has (h.kept.root henabled')).mono fun k hk => ?_
  obtain ⟨d, hd, rfl⟩ := hk
  exact ⟨hbanned henabled' d hd, hmoves.banned d hd⟩

theorem backboneCells_congr {u u' : Uvn} (h : u.cellRows = u'.cellRows) : u.backboneCells = u'.backboneCells := by
  apply Dict.ext_entries
  show u.cells.map _ = u'.cells.map _
  rw [Uvn.cells, Uvn.cells, h]

theorem Complete.moves_of_registry (h : s.Complete setup) {R : KeyPlace → Prop} {P : ℕ → KeyPlace → Prop}
    {keys : RegistryKeys} (hspares : s.keys.Spares R P keys) : Moves s { s with keys := keys } R := by
  have huvn : keys.uvn = s.uvn := congrArg Registry.uvn hspares.registry
  refine ⟨⟨P, hspares.root, hspares.particles, hspares.backbone, rfl⟩, ?_, ?_, ?_, fun d hd => ?_, rfl, fun _ => ?_⟩
  · show ∀ c ∈ keys.uvn.cellRows, 0 < c.id
    rw [huvn]
    exact h.cellIds_pos
  · show ∀ p ∈ keys.uvn.particleRows, 0 < p.id
    rw [huvn]
    exact h.particleIds_pos
  · show keys.uvn.enableRootVpn = _
    rw [huvn]
  · have hd : d ∈ keys.uvn.excludedCells := hd
    rw [huvn] at hd
    exact List.mem_map_of_mem (Uvn.mem_allCells.mpr (List.mem_of_mem_filter hd))
  · show keys.uvn.backboneCells = _
    rw [huvn]

theorem Complete.moves_setRegistry (h : s.Complete setup) (registry : Registry) (redeploys : Bool)
    (hcells : ∀ c ∈ registry.uvn.cellRows, 0 < c.id) (hparticles : ∀ p ∈ registry.uvn.particleRows, 0 < p.id)
    (hon : registry.uvn.enableRootVpn = s.uvn.enableRootVpn)
    (hbanned : ∀ d ∈ registry.uvn.excludedCells, d.id ∈ s.uvn.allCellIds)
    (hdeployed : redeploys = false → registry.uvn.cellRows = s.uvn.cellRows) :
    Moves s { s.setRegistry registry with redeploys := redeploys } fun _ => True :=
  have hspares : s.keys.Spares (fun _ => True) (fun _ _ => True) s.keys := h.opened.spares
  ⟨⟨_, hspares⟩, hcells, hparticles, hon, hbanned, rfl, fun hsettled => backboneCells_congr (hdeployed hsettled)⟩

theorem Complete.moves_ban (h : s.Complete setup) {targets : List Target} {banned unbanOwned : Bool} {answer : Target → Bool}
    (happly : (RegistryAct.ban targets banned unbanOwned answer).apply s = .ok s') : Moves s s' fun _ => True := by
  obtain ⟨registry, hban, heq⟩ := Except.bind_eq_ok_iff.mp happly
  obtain rfl := Except.ok.inj heq
  unfold Registry.ban at hban
  split_ifs at hban
  obtain rfl := Except.ok.inj hban
  refine h.moves_setRegistry (s.keys.registry.exclude _ banned) _ (fun c hc => ?_) (fun p hp => ?_) rfl (fun d hd => ?_)
    fun hsettled => ?_
  · obtain ⟨d, hd, rfl⟩ := List.mem_map.mp hc
    have hpos := h.cellIds_pos d hd
    split_ifs
    · exact hpos
    · exact hpos
  · obtain ⟨q, hq, rfl⟩ := List.mem_map.mp hp
    have hpos := h.particleIds_pos q hq
    split_ifs
    · exact hpos
    · exact hpos
  · obtain ⟨c, hc, rfl⟩ := List.mem_map.mp (List.mem_of_mem_filter hd)
    have hmem : c.id ∈ s.uvn.allCellIds := List.mem_map_of_mem (Uvn.mem_allCells.mpr hc)
    split_ifs
    · exact hmem
    · exact hmem
  · -- no cell changes, so that the rows stay
    rw [Bool.or_eq_false_iff, List.any_eq_false] at hsettled
    refine (List.map_congr_left fun c hc => ?_).trans (List.map_id _)
    have hsame := hsettled.2 c hc
    split_ifs with hcollected
    · have heq : c.excluded = banned := by
        by_contra hne
        exact hsame (decide_eq_true ⟨hcollected, hne⟩)
      rw [← heq]
      rfl
    · rfl

theorem Complete.moves_updateCell (h : s.Complete setup) {id : ℕ} {address : Option String}
    {allowedLans : Option (List IPv4Network)} (happly : (RegistryAct.updateCell id address allowedLans).apply s = .ok s') :
    Moves s s' fun _ => True := by
  simp only [RegistryAct.apply] at happly
  split_ifs at happly
  split at happly
  · cases happly
  · split_ifs at happly
    · obtain rfl := Except.ok.inj happly
      exact h.moves_of_registry (P := fun _ _ => True) h.opened.spares
    · obtain rfl := Except.ok.inj happly
      have hid : ∀ c : CellRow, (if c.id = id then c.configure address allowedLans else c).id = c.id := by
        intro c
        split_ifs <;> rfl
      refine h.moves_setRegistry _ true (fun c hc => ?_) h.particleIds_pos rfl (fun d hd => ?_) nofun
      · obtain ⟨d, hd, rfl⟩ := List.mem_map.mp hc
        rw [hid]
        exact h.cellIds_pos d hd
      · obtain ⟨c, hc, rfl⟩ := List.mem_map.mp (List.mem_of_mem_filter hd)
        rw [hid]
        exact List.mem_map_of_mem (Uvn.mem_allCells.mpr hc)

theorem Complete.moves (h : s.Complete setup) {a : RegistryAct} (happly : a.apply s = .ok s') :
    Moves s s' (a.SparesRoot s) := by
  have hopened := h.opened
  cases a with
  | addCell owner address allowedLans =>
    simp only [RegistryAct.apply] at happly
    split_ifs at happly
    obtain ⟨registry, hadd, heq⟩ := Except.bind_eq_ok_iff.mp happly
    obtain rfl := Except.ok.inj heq
    obtain ⟨_, -, heq⟩ := Except.bind_eq_ok_iff.mp hadd
    obtain rfl := Except.ok.inj heq
    refine h.moves_setRegistry _ true (fun c hc => ?_) h.particleIds_pos rfl (fun d hd => ?_) nofun
    · rcases List.mem_append.mp hc with hc | hc
      · exact h.cellIds_pos c hc
      · rw [List.mem_singleton.mp hc]
        exact Nat.succ_pos _
    · obtain ⟨hd, hexcluded⟩ := List.mem_filter.mp hd
      rcases List.mem_append.mp hd with hd | hd
      · exact List.mem_map_of_mem (Uvn.mem_allCells.mpr hd)
      · rw [List.mem_singleton.mp hd] at hexcluded
        cases hexcluded
  | updateCell id address allowedLans => exact h.moves_updateCell happly
  | addParticle owner =>
    obtain rfl := Except.ok.inj happly
    refine h.moves_setRegistry _ s.redeploys h.cellIds_pos (fun p hp => ?_) rfl (fun d hd => ?_) fun _ => rfl
    · rcases List.mem_append.mp hp with hp | hp
      · exact h.particleIds_pos p hp
      · rw [List.mem_singleton.mp hp]
        exact Nat.succ_pos _
    · exact List.mem_map_of_mem (Uvn.mem_allCells.mpr (List.mem_of_mem_filter hd))
  | ban targets banned unbanOwned answer => exact h.moves_ban happly
  | deleteCell c =>
    obtain ⟨keys, hkeys, heq⟩ := Except.bind_eq_ok_iff.mp happly
    obtain rfl := Except.ok.inj heq
    have happly : (RegistryKeys.ScopedOp.deleteCell c).apply s.keys = .ok keys := hkeys
    have hspares := (RegistryKeys.ScopedOp.spares hopened happly).1
    have herase : keys.uvn = s.uvn.eraseCell c := hopened.uvn_deleteCell hkeys
    refine ⟨⟨_, hspares⟩, ?_, ?_, ?_, fun d hd => ?_, rfl, nofun⟩
    · show ∀ d ∈ keys.uvn.cellRows, 0 < d.id
      rw [herase]
      exact fun d hd => h.cellIds_pos d (List.mem_of_mem_filter hd)
    · show ∀ q ∈ keys.uvn.particleRows, 0 < q.id
      rw [herase]
      exact h.particleIds_pos
    · show keys.uvn.enableRootVpn = _
      rw [herase]
      rfl
    · have hd : d ∈ keys.uvn.excludedCells := hd
      rw [herase] at hd
      obtain ⟨hrow, -⟩ := List.mem_filter.mp hd
      exact List.mem_map_of_mem (Uvn.mem_allCells.mpr (List.mem_of_mem_filter hrow))
  | deleteParticle p =>
    obtain ⟨keys, hkeys, heq⟩ := Except.bind_eq_ok_iff.mp happly
    obtain rfl := Except.ok.inj heq
    have happly : (RegistryKeys.ScopedOp.deleteParticle p).apply s.keys = .ok keys := hkeys
    have hspares := (RegistryKeys.ScopedOp.spares hopened happly).1
    have herase : keys.uvn = s.uvn.eraseParticle p := hopened.uvn_deleteParticle hkeys
    refine ⟨⟨_, hspares⟩, ?_, ?_, ?_, fun d hd => ?_, rfl, fun _ => ?_⟩
    · show ∀ d ∈ keys.uvn.cellRows, 0 < d.id
      rw [herase]
      exact h.cellIds_pos
    · show ∀ q ∈ keys.uvn.particleRows, 0 < q.id
      rw [herase]
      exact fun q hq => h.particleIds_pos q (List.mem_of_mem_filter hq)
    · show keys.uvn.enableRootVpn = _
      rw [herase]
      rfl
    · have hd : d ∈ keys.uvn.excludedCells := hd
      rw [herase] at hd
      exact List.mem_map_of_mem (Uvn.mem_allCells.mpr (List.mem_of_mem_filter hd))
    · show keys.uvn.backboneCells = _
      rw [herase]
      rfl
  | rekeyUvn rootVpn particlesVpn =>
    obtain ⟨keys, hkeys, heq⟩ := Except.bind_eq_ok_iff.mp happly
    obtain rfl := Except.ok.inj heq
    refine h.moves_of_registry (hopened.spares.rekeyUvn (P := fun _ _ => False) hkeys (fun hroot k hk => ?_) fun _ _ => id)
    rw [RegistryAct.SparesRoot, hroot] at hk
    cases hk
  | rekeyCell c rootVpn particlesVpn =>
    obtain ⟨keys, hkeys, heq⟩ := Except.bind_eq_ok_iff.mp happly
    obtain rfl := Except.ok.inj heq
    refine h.moves_of_registry (hopened.spares.rekeyCell (P := fun _ _ => False) hkeys (fun hroot k hk => ?_) fun _ => id)
    rw [show rootVpn = false from hk] at hroot
    cases hroot
  | rekeyParticle p cells =>
    obtain ⟨keys, hkeys, heq⟩ := Except.bind_eq_ok_iff.mp happly
    obtain rfl := Except.ok.inj heq
    exact h.moves_of_registry (hopened.spares.rekeyParticle (P := fun _ _ => False) hkeys fun _ _ hk => hk.elim)

theorem Complete.spares_banned (h : s.Complete setup) {a : RegistryAct} (hok : a.Ok s) (happly : a.apply s = .ok s')
    (henabled : s.uvn.enableRootVpn) : ∀ d ∈ s'.uvn.excludedCells, a.SparesRoot s (.peer d.id) := by
  intro d hd
  cases a with
  | addCell owner address allowedLans => trivial
  | updateCell id address allowedLans => trivial
  | addParticle owner => trivial
  | ban targets banned unbanOwned answer => trivial
  | rekeyParticle p cells => trivial
  | deleteParticle p => exact nofun
  | deleteCell c =>
    obtain ⟨keys, hkeys, heq⟩ := Except.bind_eq_ok_iff.mp happly
    obtain rfl := Except.ok.inj heq
    have hd : d ∈ keys.uvn.excludedCells := hd
    rw [h.opened.uvn_deleteCell hkeys] at hd
    obtain ⟨hrow, hexcluded⟩ := List.mem_filter.mp hd
    obtain ⟨hrow, hne⟩ := List.mem_filter.mp hrow
    exact absurd (hok henabled d (List.mem_filter.mpr ⟨hrow, hexcluded⟩)) (of_decide_eq_true hne)
  | rekeyUvn rootVpn particlesVpn =>
    obtain ⟨keys, hkeys, heq⟩ := Except.bind_eq_ok_iff.mp happly
    obtain rfl := Except.ok.inj heq
    have hspares : s.keys.Spares _ _ keys :=
      h.opened.spares.rekeyUvn (R := fun _ => False) (P := fun _ _ => False) hkeys (fun _ _ => id) fun _ _ => id
    have hd : d ∈ keys.uvn.excludedCells := hd
    rw [show keys.uvn = s.uvn from congrArg Registry.uvn hspares.registry] at hd
    by_contra hroot
    have hnone := hok henabled (by simpa [RegistryAct.SparesRoot] using hroot)
    rw [hnone] at hd
    cases hd
  | rekeyCell c rootVpn particlesVpn =>
    obtain ⟨keys, hkeys, heq⟩ := Except.bind_eq_ok_iff.mp happly
    obtain rfl := Except.ok.inj heq
    have hspares : s.keys.Spares _ _ keys :=
      h.opened.spares.rekeyCell (R := fun _ => False) (P := fun _ _ => False) hkeys (fun _ _ hk => hk.elim) fun _ => id
    have hd : d ∈ keys.uvn.excludedCells := hd
    rw [show keys.uvn = s.uvn from congrArg Registry.uvn hspares.registry] at hd
    by_contra hroot
    have hnone := hok henabled (by simpa [RegistryAct.SparesRoot] using hroot)
    rw [hnone] at hd
    cases hd

theorem Complete.apply (h : s.Complete setup) {a : RegistryAct} (hok : a.Ok s) (happly : a.apply s = .ok s') :
    s'.Pending setup :=
  (h.moves happly).pending h (h.spares_banned hok happly)

/-! ### Runs -/

theorem pending_create (owner : ℕ) (address : Option String) (enableRootVpn : Bool) :
    (create owner address enableRootVpn).Pending setup :=
  ⟨⟨Keymat.tidy_load _, rfl⟩, fun _ => ⟨Keymat.tidy_load _, rfl⟩, fun _ _ => rfl, nofun, nofun,
    fun _ => ⟨fun _ ⟨_, hd, _⟩ => (nomatch hd), fun _ ⟨_, hd, _⟩ => (nomatch hd)⟩, nofun⟩

/-- The keys of all configurations are there, and building the configurations raises no key error. -/
structure KeysAvailable (setup : Setup) (s : RegistryState) : Prop where
  asserted : Except.Avoids Exn.IsKeyError (s.assertKeys setup)
  root : ∀ v, s.rootVpn setup = some v → v.KeysComplete ∧ Except.Avoids Exn.IsKeyError v.build
  rekeyed : ∃ v?, s.rekeyedRootVpn setup = .ok v? ∧
    ∀ v, v? = some v → v.KeysComplete ∧ Except.Avoids Exn.IsKeyError v.build
  particles : ∀ c ∈ s.uvn.cells, ∀ v, s.particlesVpn setup c = some v →
    v.KeysComplete ∧ Except.Avoids Exn.IsKeyError v.build
  backbone : ∃ vpn, s.backboneVpn setup = some vpn ∧ ∀ a ∈ vpn.peerIds,
    vpn.HoldsLinks s.keys.backboneVpn a ∧
      Except.Avoids Exn.IsKeyError (vpn.peerConfig setup.linkSource a s.keys.backboneVpn)
theorem avoids_backboneMaterial (k : BackboneKeys) (peer : ℕ) (secret : Bool) :
    Except.Avoids Exn.IsKeyError (k.getPeerMaterial peer secret) := by
  have hother : ∀ pair, Except.Avoids Exn.IsKeyError (otherEnd pair peer) := by
    intro pair
    unfold otherEnd
    split_ifs
    · exact .of_eq_ok rfl
    · exact .of_eq_ok rfl
    · exact .of_error (by simp [Exn.IsKeyError])
  unfold BackboneKeys.getPeerMaterial
  refine .bind (.mapM fun e _ => (hother e.1).bind fun _ _ => .of_eq_ok rfl) fun _ _ => ?_
  split_ifs
  · exact .of_eq_ok rfl
  · exact .of_eq_ok rfl

/-- Without the root VPN there are no cells. -/
def NoneAdded (s : RegistryState) : Prop := s.uvn.enableRootVpn = false → s.uvn.cellRows = []

/-- The packages find their keys: where the root VPN is disabled, there are no cells. -/
theorem Complete.avoids_makePackages (h : s.Complete setup) (hnone : s.NoneAdded) :
    Except.Avoids Exn.IsKeyError (s.makePackages setup) := by
  have hparticlesId : ∀ c ∈ s.uvn.cells, c.enableParticlesVpn setup.settings →
      (s.keys.particlesVpns c.id).Has (Keymat.Wanted s.uvn.activeParticleIds) := fun c hc henabled =>
    h.kept.particles c.id (List.mem_map_of_mem (List.mem_filter.mpr ⟨hc, henabled⟩))
  refine .bind (.forM fun c hc => ?_) fun _ _ => .forM fun p hp => .forM fun c hc => ?_
  · have henabled : s.uvn.enableRootVpn = true := by
      by_contra hdisabled
      rw [Uvn.cells, hnone (by simpa using hdisabled)] at hc
      cases hc
    have hactive : ∀ q ∈ s.uvn.activeIds, q ∈ s.uvn.allCellIds := fun q => Uvn.mem_allCellIds_of_active
    have hroot : ∀ secret, Except.Avoids Exn.IsKeyError ((s.activeKeys setup).root.getPeerMaterial c.id secret) :=
      (h.kept.root henabled).avoids_getPeerMaterial trivial hactive fun _ => hactive c.id (List.mem_map_of_mem hc)
    have hparticles : ∀ secret, Except.Avoids Exn.IsKeyError ((s.activeKeys setup).particlesMaterial c.id
        (c.enableParticlesVpn setup.settings) secret) := by
      intro secret
      unfold ActiveKeys.particlesMaterial
      split_ifs with henabled
      · exact (hparticlesId c hc henabled).avoids_getPeerMaterial trivial (fun _ => id) (fun hzero => absurd rfl hzero) secret
      · exact .of_eq_ok rfl
    have hbackbone := avoids_backboneMaterial (s.activeKeys setup).backbone c.id
    unfold packageCell ActiveKeys.cellKeyMaterial
    exact .bind ((hroot _).bind fun _ _ => (hbackbone _).bind fun _ _ => (hparticles _).bind fun _ _ =>
      (hroot _).bind fun _ _ => (hbackbone _).bind fun _ _ => (hparticles _).bind fun _ _ => .of_eq_ok rfl)
      fun _ _ => .of_eq_ok rfl
  · cases hv : s.particlesVpn setup c with
    | none => exact .of_eq_ok rfl
    | some v =>
      obtain ⟨hkeys, hpos⟩ := keysComplete_particles (hparticlesId c hc) h.particleIds_pos hv
      have hmem : p ∈ v.peerIds := by
        unfold particlesVpn Uno.particlesVpn at hv
        split_ifs at hv
        obtain rfl := Option.some.inj hv
        exact (List.mem_insertionSort _).mpr hp
      exact (hkeys.avoids_peerConfig hmem (hpos p hmem)).bind fun _ _ => .of_eq_ok rfl

theorem Complete.keysAvailable (h : s.Complete setup) : s.KeysAvailable setup := by
  have hroot : ∀ {m : Keymat}, (s.uvn.enableRootVpn → m.Has (Keymat.Wanted s.uvn.allCellIds)) → ∀ ids v,
      rootVpnConfig setup.settings s.uvn (m.material setup.pubkey .root ids) = some v →
      v.KeysComplete ∧ Except.Avoids Exn.IsKeyError v.build := by
    intro m hm ids v hv
    obtain ⟨hkeys, hpos⟩ := keysComplete_root hm h.cellIds_pos hv
    exact ⟨hkeys, hkeys.avoids_build hpos⟩
  refine ⟨h.toPrepared.assertKeys.1, hroot h.kept.root _, ?_, fun c hc v hv => ?_, ?_⟩
  · unfold rekeyedRootVpn
    by_cases hrekeying : (s.keys.rekeying && s.uvn.enableRootVpn) = true
    · have henabled := (Bool.and_eq_true_iff.mp hrekeying).2
      have hload : (Keymat.load s.keys.rootVpn.rows).Has (Keymat.Wanted s.uvn.allCellIds) :=
        h.rootLoaded ▸ h.kept.root henabled
      have hhas := hload.loadRekeyed
      have hwanted : ∀ k, Keymat.Wanted s.uvn.activeIds k → Keymat.Wanted s.uvn.allCellIds k := by
        intro k hk
        cases k with
        | root => trivial
        | peer p => exact Uvn.mem_allCellIds_of_active hk
      have hassert := hhas.assertKeys (setup.source .root) hwanted
      refine ⟨_, ?_, hroot (fun _ => hhas) s.uvn.activeIds⟩
      rw [if_pos hrekeying, hassert]
      rfl
    · exact ⟨none, if_neg hrekeying, fun v hv => absurd hv (Option.some_ne_none v).symm⟩
  · have hhas : c.enableParticlesVpn setup.settings →
        (s.keys.particlesVpns c.id).Has (Keymat.Wanted s.uvn.activeParticleIds) :=
      fun henabled => by
        have hmem : c.id ∈ s.uvn.particlesCellIds setup.settings :=
          List.mem_map_of_mem (List.mem_filter.mpr ⟨hc, henabled⟩)
        exact h.kept.particles c.id hmem
    unfold particlesVpn at hv
    obtain ⟨hkeys, hpos⟩ := keysComplete_particles hhas h.particleIds_pos hv
    exact ⟨hkeys, hkeys.avoids_build hpos⟩
  · obtain ⟨vpn, hvpn, hlinkable⟩ := h.deployed h.settled
    exact ⟨vpn, hvpn, fun a ha => ⟨h.kept.links vpn hvpn a ha, hlinkable.avoids_peerConfig _ a _⟩⟩

theorem Complete.noneAdded_apply (h : s.Complete setup) (hnone : s.NoneAdded) {a : RegistryAct} (hok : a.Ok s)
    (happly : a.apply s = .ok s') : s'.NoneAdded := by
  have hon := (h.moves happly).on
  intro hdisabled
  rw [hon] at hdisabled
  have hrows := hnone hdisabled
  cases a with
  | addCell owner address allowedLans =>
    have henabled : s.uvn.enableRootVpn = true := hok
    rw [henabled] at hdisabled
    cases hdisabled
  | updateCell id address allowedLans =>
    simp only [RegistryAct.apply] at happly
    split_ifs at happly
    rw [hrows] at happly
    cases happly
  | addParticle owner =>
    obtain rfl := Except.ok.inj happly
    exact hrows
  | ban targets banned unbanOwned answer =>
    obtain ⟨registry, hban, heq⟩ := Except.bind_eq_ok_iff.mp happly
    obtain rfl := Except.ok.inj heq
    unfold Registry.ban at hban
    split_ifs at hban
    obtain rfl := Except.ok.inj hban
    show s.uvn.cellRows.map _ = []
    rw [hrows, List.map_nil]
  | deleteCell c =>
    obtain ⟨keys, hkeys, heq⟩ := Except.bind_eq_ok_iff.mp happly
    obtain rfl := Except.ok.inj heq
    show keys.uvn.cellRows = []
    rw [h.opened.uvn_deleteCell hkeys]
    show s.uvn.cellRows.filter _ = []
    rw [hrows, List.filter_nil]
  | deleteParticle p =>
    obtain ⟨keys, hkeys, heq⟩ := Except.bind_eq_ok_iff.mp happly
    obtain rfl := Except.ok.inj heq
    show keys.uvn.cellRows = []
    rw [h.opened.uvn_deleteParticle hkeys]
    exact hrows
  | rekeyUvn rootVpn particlesVpn =>
    obtain ⟨keys, hkeys, heq⟩ := Except.bind_eq_ok_iff.mp happly
    obtain rfl := Except.ok.inj heq
    have hspares := h.opened.spares.rekeyUvn (R := fun _ => False) (P := fun _ _ => False) hkeys (fun _ _ => id)
      fun _ _ => id
    exact (congrArg (fun r => r.uvn.cellRows) hspares.registry).trans hrows
  | rekeyCell c rootVpn particlesVpn =>
    obtain ⟨keys, hkeys, heq⟩ := Except.bind_eq_ok_iff.mp happly
    obtain rfl := Except.ok.inj heq
    have hspares := h.opened.spares.rekeyCell (R := fun _ => False) (P := fun _ _ => False) hkeys
      (fun _ _ hk => hk.elim) fun _ => id
    exact (congrArg (fun r => r.uvn.cellRows) hspares.registry).trans hrows
  | rekeyParticle p cells =>
    obtain ⟨keys, hkeys, heq⟩ := Except.bind_eq_ok_iff.mp happly
    obtain rfl := Except.ok.inj heq
    have hspares := h.opened.spares.rekeyParticle (R := fun _ => False) (P := fun _ _ => False) hkeys
      fun _ _ hk => hk.elim
    exact (congrArg (fun r => r.uvn.cellRows) hspares.registry).trans hrows

def exampleSetup : Setup where
  settings := exampleUvnSettings
  strategy := .fullMesh
  source := fun _ i => s!"key {i}"
  linkSource := exampleSource
  pubkey := fun key => key ++ " (public)"

/-- The package of a cell needs keys of the root VPN, which are not asserted if it is disabled. -/
example : ∃ s₀, (create 1 (some "registry.example.com") false).generate exampleSetup .unshuffled = .ok s₀ ∧
    s₀.step exampleSetup (.addCell none (some "a.example.com") [], .unshuffled) = .error .missingKeyMaterial :=
  ⟨_, rfl, rfl⟩

end RegistryState

end Uno
