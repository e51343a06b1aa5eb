import Uno.Registry.Rekey
import Uno.Vpn.Material

/-!
# Purging and asserting the keys of a registry

What `generate_artifacts` does with the keys of the centralized VPNs: the keys of peers that are gone are
deleted, the registry is saved, the missing keys are asserted, and the registry is saved again. Building the
configuration of the root VPN looks up the keys of all cells, banned ones included, while only those of the
active cells are asserted. The pass succeeds whenever the key material can be saved and no cell is banned
(`exists_generateKeys`).
-/

namespace Uno

namespace Keymat

/-- `purge_gone_peers`, of keys that are deleted. -/
def purge (m : Keymat) (peerIds : List ℕ) : Result Keymat := do
  .ok (← m.purgeGonePeers peerIds true fun _ => false).2

/-- Key material that can be saved. -/
structure Ready (m : Keymat) : Prop where
  tidy : m.Tidy
  clear : m.Clear

theorem ready_load (rows : KeymatRows) : (load rows).Ready := ⟨tidy_load rows, clear_load rows⟩

variable {m m' : Keymat}

theorem Ready.exists_purge (h : m.Ready) (peerIds : List ℕ) : ∃ m', m.purge peerIds = .ok m' ∧ m'.Ready := by
  obtain ⟨gone, m', hpurge, hclear⟩ := h.clear.exists_purgeGonePeers h.tidy peerIds true
    (fun _ => false) (fun k _ hdel => by simp [deletesKey] at hdel)
    fun p _ hdel => by simp [VpnKeysMap.deletesPair] at hdel
  exact ⟨m', by rw [purge, hpurge]; rfl, (h.tidy.purgeGonePeers hpurge).1, hclear⟩

theorem Ready.purge_of_forall (h : m.Ready) {peerIds : List ℕ} (hok : m.purge peerIds = .ok m')
    (hkeys : ∀ p, m.keys.get? (.peer p) ≠ none → p ∈ peerIds) :
    (∀ r, m'.After r ↔ m.After r) ∧ (∀ r, m'.presharedKeys.After r ↔ m.presharedKeys.After r) ∧
      m'.lastIds = m.lastIds := by
  obtain ⟨⟨gone, m₁⟩, hpurge, heq⟩ := Except.bind_eq_ok_iff.mp hok
  obtain rfl := Except.ok.inj heq
  obtain ⟨-, hafter, hpsks⟩ := h.tidy.purgeGonePeers hpurge
  have hgone : m.gonePeers peerIds = [] := by
    refine List.filter_eq_nil_iff.mpr fun p hp hnot => of_decide_eq_true hnot (hkeys p ?_)
    rw [get?_keys_peer, ne_eq, Dict.get?_eq_none_iff, not_not]
    exact hp
  refine ⟨fun r => (hafter r).trans ?_, fun r => (hpsks r).trans ?_, lastIds_purgeGonePeers hpurge⟩
  · refine FlaggedTable.removal_of_forall fun r hr hflag hrem => ?_
    obtain ⟨id, k, value, flag⟩ := r
    cases hflag
    cases k with
    | root => exact hrem
    | peer p => exact hrem (hkeys p (by rw [(h.tidy.keys _ ⟨id, value⟩).mpr hr]; nofun))
  · refine FlaggedTable.removal_of_forall fun r hr hflag hrem => ?_
    rw [hgone] at hrem
    exact hrem.2.elim List.not_mem_nil List.not_mem_nil

end Keymat

namespace Uvn

/-- The active cells with a particles VPN. -/
def particlesCellIds (settings : UvnSettings) (u : Uvn) : List ℕ :=
  (u.cells.filter fun c => c.enableParticlesVpn settings).map CellRow.id

def activeParticleIds (u : Uvn) : List ℕ := u.particles.map ParticleRow.id

end Uvn

namespace RegistryKeys

/-! ### The operations -/

section operations
variable (settings : UvnSettings) (source : Vpn → ℕ → String) (s : RegistryKeys)

def purgeKeys : Result RegistryKeys := do
  let root ← s.rootVpn.purge s.uvn.allCellIds
  let particles ← s.uvn.allCellIds.foldlM
    (fun (ms : ℕ → Keymat) c => do .ok (Function.update ms c (← (ms c).purge s.uvn.allParticleIds))) s.particlesVpns
  .ok { s with rootVpn := root, particlesVpns := particles }

/-- The keys of the root VPN. -/
def assertRootKeys : Result RegistryKeys :=
  s.onlyIf s.uvn.enableRootVpn fun s => do
    .ok { s with rootVpn := ← s.rootVpn.assertKeys (source .root) s.uvn.activeIds }

/-- `MissingKeyMaterial`, unless the key is there. -/
def assertThere {α : Type} (key : Option α) : Result Unit :=
  if key.isSome then .ok () else .error .missingKeyMaterial

/-- The keys that the configuration of the root VPN reads when it is built: its peers are all cells. -/
def readRootKeys : Result Unit :=
  if s.uvn.enableRootVpn then do
    assertThere s.rootVpn.rootKey
    forM s.uvn.allCellIds fun c => do
      assertThere (s.rootVpn.peerKeys.get? c)
      assertThere (s.rootVpn.presharedKeys.content.get? (0, c))
  else .ok ()

/-- The keys of the particles VPNs. -/
def assertParticlesKeys : Result RegistryKeys := do
  let particles ← (s.uvn.particlesCellIds settings).foldlM
    (fun (ms : ℕ → Keymat) c => do
      .ok (Function.update ms c (← (ms c).assertKeys (source (.particles c)) s.uvn.activeParticleIds))) s.particlesVpns
  .ok { s with particlesVpns := particles }

/-- The key pass of `generate_artifacts` on the centralized VPNs. The configurations of the particles VPNs read the
keys that were just asserted, and so do the packages of the cells. -/
def generateKeys : Result RegistryKeys := do
  let s ← s.purgeKeys
  let s ← s.save
  let s ← s.assertRootKeys source
  s.readRootKeys
  let s ← s.assertParticlesKeys settings source
  s.save

end operations

/-! ### The pass succeeds -/

/-- A registry whose key material can be saved. -/
structure Ready (s : RegistryKeys) : Prop where
  root : s.rootVpn.Ready
  particles : ∀ c, (s.particlesVpns c).Ready

variable {s s' : RegistryKeys}

theorem exists_purgeKeys (h : s.Ready) : ∃ root, ∃ particles : ℕ → Keymat,
    s.purgeKeys = .ok { s with rootVpn := root, particlesVpns := particles } ∧
      RegistryKeys.Ready { s with rootVpn := root, particlesVpns := particles } ∧
      s.rootVpn.purge s.uvn.allCellIds = .ok root ∧
      ∀ c ∈ s.uvn.allCellIds, (s.particlesVpns c).purge s.uvn.allParticleIds = .ok (particles c) := by
  obtain ⟨root, hroot, hready⟩ := h.root.exists_purge s.uvn.allCellIds
  obtain ⟨particles, hfold, hmem, hother⟩ := Fold.exists_foldlM_update
    (fun _ m => Keymat.purge m s.uvn.allParticleIds) s.uvn.allCellIds_nodup (g := s.particlesVpns) fun c _ => by
      obtain ⟨m, hm, -⟩ := (h.particles c).exists_purge s.uvn.allParticleIds
      exact ⟨m, hm⟩
  refine ⟨root, particles, ?_, ⟨hready, fun c => ?_⟩, hroot, hmem⟩
  · rw [purgeKeys, hroot, Except.ok_bind, hfold]
    rfl
  · by_cases hc : c ∈ s.uvn.allCellIds
    · obtain ⟨m, hm, hready⟩ := (h.particles c).exists_purge s.uvn.allParticleIds
      rw [hmem c hc] at hm
      obtain rfl := Except.ok.inj hm
      exact hready
    · change (particles c).Ready
      rw [hother c hc]
      exact h.particles c

theorem exists_save (h : s.Ready) {registry : Registry} (hregistry : s.registry.save = .ok registry) :
    ∃ root, ∃ particles : ℕ → Keymat, s.save = .ok { s with
        registry := registry
        rootVpn := .load root.rows
        particlesVpns := fun c => .load (particles c).rows } ∧
      s.rootVpn.save = .ok root ∧
      (∀ c ∈ s.uvn.allCellIds, (s.particlesVpns c).save = .ok (particles c)) ∧
      ∀ c ∉ s.uvn.allCellIds, particles c = s.particlesVpns c := by
  obtain ⟨root, hroot, -⟩ := h.root.clear.exists_save
  obtain ⟨particles, hfold, hmem, hother⟩ := Fold.exists_foldlM_update (fun _ m => Keymat.save m)
    s.uvn.allCellIds_nodup (g := s.particlesVpns) fun c _ => by
      obtain ⟨m, hm, -⟩ := (h.particles c).clear.exists_save
      exact ⟨m, hm⟩
  refine ⟨root, particles, ?_, hroot, hmem, hother⟩
  rw [save, hregistry, Except.ok_bind, hroot, Except.ok_bind, hfold]
  rfl

/-- A registry without notes. -/
structure Settled (s : RegistryKeys) : Prop where
  root : s.rootVpn.Tidy ∧ s.rootVpn.Settled
  particles : ∀ c, (s.particlesVpns c).Tidy ∧ (s.particlesVpns c).Settled

theorem settled_load (root : KeymatRows) (particles : ℕ → KeymatRows) :
    RegistryKeys.Settled { s with rootVpn := .load root, particlesVpns := fun c => .load (particles c) } :=
  ⟨⟨Keymat.tidy_load _, Keymat.settled_load _⟩, fun _ => ⟨Keymat.tidy_load _, Keymat.settled_load _⟩⟩

/-- No cell is banned. -/
def NoBanned (s : RegistryKeys) : Prop := s.uvn.excludedCells = []

theorem NoBanned.allCellIds (h : s.NoBanned) : s.uvn.allCellIds = s.uvn.activeIds := by
  unfold Uvn.allCellIds Uvn.allCells Uvn.activeIds
  rw [h, List.append_nil]

theorem assertThere_eq_ok {α : Type} {key : Option α} (h : key ≠ none) : assertThere key = .ok () :=
  if_pos (Option.isSome_iff_ne_none.mpr h)

theorem readRootKeys_eq_ok (h : s.NoBanned) (hhas : s.rootVpn.Has (Keymat.Wanted s.uvn.activeIds)) :
    s.readRootKeys = .ok () := by
  unfold readRootKeys
  split_ifs
  · rw [assertThere_eq_ok (Keymat.get?_keys_root ▸ hhas.keys .root trivial), Except.ok_bind]
    refine Fold.forM_eq_ok_iff.mpr fun c hc => ?_
    rw [h.allCellIds] at hc
    have hkey := hhas.keys (.peer c) hc
    rw [Keymat.get?_keys_peer] at hkey
    rw [assertThere_eq_ok hkey, Except.ok_bind, assertThere_eq_ok (hhas.psks c hc)]
  · rfl

theorem exists_assertRootKeys (source : Vpn → ℕ → String) (h : s.Settled) (henabled : s.uvn.enableRootVpn) :
    ∃ root, s.assertRootKeys source = .ok { s with rootVpn := root } ∧ RegistryKeys.Settled { s with rootVpn := root } ∧
      root.Has (Keymat.Wanted s.uvn.activeIds) ∧
        FlaggedTable.Grows (source .root) (Keymat.Wanted s.uvn.activeIds) s.rootVpn.rows.keys root.rows.keys ∧
      FlaggedTable.Grows (source .root) (Keymat.WantedPair s.uvn.activeIds) s.rootVpn.rows.psks root.rows.psks := by
  obtain ⟨root, hassert, htidy, hsettled, hkeys, hpsks⟩ :=
    Keymat.exists_assertKeys (source .root) h.root.1 h.root.2 s.uvn.activeIds
  have hnone : s.rootVpn.Has fun _ => False := ⟨fun _ hk => hk.elim, fun _ hp => hp.elim⟩
  obtain ⟨-, -, hhas, -⟩ := hnone.of_assertKeys h.root.1 h.root.2 hassert
  refine ⟨root, ?_, ⟨⟨htidy, hsettled⟩, h.particles⟩, hhas.mono fun _ => .inr, hkeys, hpsks⟩
  rw [assertRootKeys, onlyIf, if_pos henabled, hassert]
  rfl

theorem exists_assertParticlesKeys (settings : UvnSettings) (source : Vpn → ℕ → String) (h : s.Settled) :
    ∃ particles : ℕ → Keymat, s.assertParticlesKeys settings source = .ok { s with particlesVpns := particles } ∧
      RegistryKeys.Settled { s with particlesVpns := particles } ∧
      ∀ c ∈ s.uvn.particlesCellIds settings,
        (s.particlesVpns c).assertKeys (source (.particles c)) s.uvn.activeParticleIds = .ok (particles c) := by
  have hassert := fun c => Keymat.exists_assertKeys (source (.particles c)) (h.particles c).1 (h.particles c).2
    s.uvn.activeParticleIds
  have hnodup : (s.uvn.particlesCellIds settings).Nodup :=
    s.uvn.cellIds_nodup.sublist ((List.filter_sublist.trans List.filter_sublist).map _)
  obtain ⟨particles, hfold, hmem, hother⟩ := Fold.exists_foldlM_update
    (fun c m => Keymat.assertKeys (source (.particles c)) m s.uvn.activeParticleIds) hnodup (g := s.particlesVpns)
    fun c _ => by
      obtain ⟨m, hm, -⟩ := hassert c
      exact ⟨m, hm⟩
  refine ⟨particles, ?_, ⟨h.root, fun c => ?_⟩, hmem⟩
  · rw [assertParticlesKeys, hfold]
    rfl
  · by_cases hc : c ∈ s.uvn.particlesCellIds settings
    · obtain ⟨m, hm, htidy, hsettled, -⟩ := hassert c
      rw [hmem c hc] at hm
      obtain rfl := Except.ok.inj hm
      exact ⟨htidy, hsettled⟩
    · change (particles c).Tidy ∧ (particles c).Settled
      rw [hother c hc]
      exact h.particles c

/-- The pass on the root VPN, when no key belongs to a peer that is gone: the rows that removed keys left are
written, and those that are missing are added. -/
theorem exists_generateKeys (settings : UvnSettings) (source : Vpn → ℕ → String) (h : s.Ready)
    (hclean : s.registry.dirty = false) (henabled : s.uvn.enableRootVpn) (hbanned : s.NoBanned)
    (hpeers : ∀ p, s.rootVpn.keys.get? (.peer p) ≠ none → p ∈ s.uvn.allCellIds) :
    ∃ (root : KeymatRows) (particles : ℕ → KeymatRows) (t : KeymatRows),
      s.generateKeys settings source =
        .ok { s with rootVpn := .load root, particlesVpns := fun c => .load (particles c) } ∧
      (∀ r, r ∈ t.keys.rows ↔ s.rootVpn.After r) ∧ (∀ r, r ∈ t.psks.rows ↔ s.rootVpn.presharedKeys.After r) ∧
      (t.keys.lastId, t.psks.lastId) = s.rootVpn.lastIds ∧
      FlaggedTable.Grows (source .root) (Keymat.Wanted s.uvn.activeIds) t.keys root.keys ∧
      FlaggedTable.Grows (source .root) (Keymat.WantedPair s.uvn.activeIds) t.psks root.psks := by
  have hregistry : s.registry.save = .ok s.registry := Registry.save_of_clean hclean
  obtain ⟨root₁, particles₁, hpurge, hready, hroot₁, -⟩ := exists_purgeKeys h
  obtain ⟨hafter, hpsks, hlast⟩ := h.root.purge_of_forall hroot₁ hpeers
  obtain ⟨root₂, particles₂, hsave, hroot₂, -⟩ := exists_save hready hregistry
  obtain ⟨hkeys₂, hpsks₂⟩ := Keymat.save_rows hroot₂
  obtain ⟨root₃, hassert, hsettled, hhas, hgrows, hgrows'⟩ := exists_assertRootKeys
    (s := { s with rootVpn := .load root₂.rows, particlesVpns := fun c => .load (particles₂ c).rows }) source
    (settled_load _ _) henabled
  obtain ⟨particles₃, hassert', hsettled', -⟩ := exists_assertParticlesKeys settings source hsettled
  have hsave' : RegistryKeys.save { s with rootVpn := root₃, particlesVpns := particles₃ } = .ok { s with
      rootVpn := .load root₃.rows, particlesVpns := fun c => .load (particles₃ c).rows } := by
    have hfold : s.uvn.allCellIds.foldlM (fun (ms : ℕ → Keymat) c => do .ok (Function.update ms c (← (ms c).save)))
        particles₃ = .ok particles₃ :=
      (Fold.foldlM_update_iff (fun _ m => Keymat.save m) s.uvn.allCellIds_nodup).mpr
        ⟨fun c _ => (hsettled'.particles c).2.save, fun _ _ => rfl⟩
    rw [save, hregistry, Except.ok_bind, hsettled.root.2.save, Except.ok_bind]
    change (s.uvn.allCellIds.foldlM _ particles₃ >>= _) = _
    rw [hfold]
    rfl
  have hread : readRootKeys { s with rootVpn := root₃, particlesVpns := fun c => .load (particles₂ c).rows } = .ok () :=
    readRootKeys_eq_ok hbanned hhas
  refine ⟨root₃.rows, fun c => (particles₃ c).rows, root₂.rows, ?_, fun r => (hkeys₂ r).trans (hafter r),
    fun r => (hpsks₂ r).trans (hpsks r), (Keymat.lastIds_save hroot₂).trans hlast, hgrows, hgrows'⟩
  rw [generateKeys, hpurge, Except.ok_bind, hsave, Except.ok_bind, hassert, Except.ok_bind, hread, Except.ok_bind, hassert']
  exact hsave'

end RegistryKeys

end Uno
