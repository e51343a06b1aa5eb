import Uno.Vpn.Keymat
import Uno.Vpn.Backbone
import Uno.Registry.Cells
import Mathlib.Logic.Function.Basic

/-!
# Rekeying and deleting cells and particles

The operations of the registry that remove keys of its VPNs: `rekeyUvn`, `rekeyCell`, `rekeyParticle`,
`deleteCell` and `deleteParticle`. Each removes the keys of the peers that are not in a list, and computes
that list on its own. For a particle it is made from all particles, for a cell only from the active cells, so
that a banned cell loses its key of the root VPN with the cell that is rekeyed or deleted (`scoped_iff`).
-/

namespace Uno

/-! ### State -/

/-- A registry with the key material of its VPNs. -/
structure RegistryKeys where
  registry : Registry
  /-- Whether `rekeyed_root_config_id` is set. -/
  rekeying : Bool
  rootVpn : Keymat
  /-- The key material of the particles VPN of each cell. -/
  particlesVpns : ℕ → Keymat
  /-- The keys of the backbone are never dropped, only deleted. -/
  backboneVpn : P2pVpnKeyMaterial
  /-- The ids of `rekeyed_cells`, once they were computed: the property is never reset. -/
  rekeyed : Option (List ℕ)

namespace Uvn

/-- The ids of the active cells. -/
def activeIds (u : Uvn) : List ℕ := u.cells.map CellRow.id

def allCellIds (u : Uvn) : List ℕ := u.allCells.map CellRow.id

def allParticleIds (u : Uvn) : List ℕ := u.allParticles.map ParticleRow.id

theorem allCellIds_nodup (u : Uvn) : u.allCellIds.Nodup := (u.allCells_perm.map _).nodup_iff.mpr u.cellIds_nodup

theorem mem_allCellIds_of_active {u : Uvn} {c : ℕ} (h : c ∈ u.activeIds) : c ∈ u.allCellIds := by
  rw [allCellIds, allCells, List.map_append]
  exact List.mem_append_left _ h

def eraseParticle (u : Uvn) (id : ℕ) : Uvn :=
  { u with
    particleRows := u.particleRows.filter fun p => p.id ≠ id
    particleIds_nodup := u.particleIds_nodup.sublist (List.filter_sublist.map _)
    particleIds_le := fun p hp => u.particleIds_le p (List.mem_of_mem_filter hp) }

end Uvn

/-- `peers_with_dropped_key` of the rekeyed key material: a dropped key has precedence when it is loaded. -/
def Keymat.droppedPeers (m : Keymat) : List ℕ := m.table.rows.filterMap fun r =>
  match r.key, r.flag with
  | .peer id, true => some id
  | _, _ => none

theorem Keymat.mem_droppedPeers {m : Keymat} {p : ℕ} :
    p ∈ m.droppedPeers ↔ m.table.get? (.peer p) true ≠ none := by
  rw [ne_eq, FlaggedTable.get?_eq_none_iff, droppedPeers, List.mem_filterMap]
  constructor
  · rintro ⟨⟨id, key, value, flag⟩, hr, hentry⟩ hnone
    cases key with
    | root => cases hentry
    | peer q =>
      cases flag with
      | false => cases hentry
      | true =>
        cases hentry
        exact hnone _ hr rfl rfl
  · intro hne
    by_contra hnone
    refine hne fun r hr hkey hflag => hnone ⟨r, hr, ?_⟩
    rw [hkey, hflag]

namespace RegistryKeys

def uvn (s : RegistryKeys) : Uvn := s.registry.uvn

/-! ### The operations -/

section operations
variable (s : RegistryKeys)

/-- `rekeyed_cells`. -/
def rekeyedCells : Result (List ℕ × RegistryKeys) :=
  match s.rekeyed with
  | some ids => .ok (ids, s)
  | none => do
    let ids ← s.rootVpn.droppedPeers.mapM fun p => if p ∈ s.uvn.activeIds then .ok p else .error .stopIteration
    .ok (ids, { s with rekeyed := some ids })

/-- `rekeyed_cells` is read when some active cell is not deleted. -/
def readRekeyedCells (deleted : ℕ → Bool) : Result (List ℕ × RegistryKeys) :=
  if s.uvn.activeIds.all deleted then .ok ([], s) else s.rekeyedCells

/-- `drop_or_delete`, of the active cells. -/
def dropOrDelete (deleted : ℕ → Bool) : Result ((ℕ → Bool) × RegistryKeys) := do
  let (rekeyed, s) ← s.readRekeyedCells deleted
  .ok (fun p => decide (p ∈ s.uvn.activeIds) && (deleted p || decide (p ∈ rekeyed)), s)

/-- The particles VPN of a cell; a cell that is not in the table has none. -/
def particlesVpn (c : ℕ) : Result Keymat :=
  if c ∈ s.uvn.allCellIds then .ok (s.particlesVpns c) else .error (.key c)

def setParticlesVpn (c : ℕ) (m : Keymat) : RegistryKeys :=
  { s with particlesVpns := Function.update s.particlesVpns c m }

def dropParticlesKeys (c : ℕ) : Result RegistryKeys := do
  let (_, m) ← (← s.particlesVpn c).dropKeys true fun _ => false
  .ok (s.setParticlesVpn c m)

/-- The root VPN's part of `rekey_uvn`. -/
def rekeyRoot (deleted : Bool) : Result RegistryKeys :=
  if deleted then do
    let (_, m) ← s.rootVpn.dropKeys true fun _ => false
    .ok { s with rootVpn := m }
  else do
    let (deletes, s) ← { s with rekeying := true }.dropOrDelete fun _ => false
    let (_, m) ← s.rootVpn.dropKeys false deletes
    .ok { s with rootVpn := m }

/-- A step that is taken under a condition. -/
def onlyIf (b : Bool) (f : RegistryKeys → Result RegistryKeys) : Result RegistryKeys := if b then f s else .ok s

def rekeyUvn (rootVpn particlesVpn deleted : Bool) : Result RegistryKeys :=
  if deleted || rootVpn || particlesVpn then do
    let s ← s.onlyIf (deleted || rootVpn) fun s => s.rekeyRoot deleted
    s.onlyIf (deleted || particlesVpn) fun s => s.uvn.allCellIds.foldlM dropParticlesKeys s
  else .error (.runtime "nothing to rekey")

/-- The root VPN's part of `rekey_cell`: the peers that stay are the other active cells. -/
def rekeyRootPeer (c : ℕ) (deleted : Bool) : Result RegistryKeys := do
  let (deletes, s) ← { s with rekeying := s.rekeying || !deleted }.dropOrDelete fun d => decide (d = c) && deleted
  let (_, m) ← s.rootVpn.purgeGonePeers (s.uvn.activeIds.filter (· ≠ c)) false deletes
  .ok { s with rootVpn := m }

def rekeyCell (c : ℕ) (rootVpn particlesVpn deleted : Bool) : Result RegistryKeys :=
  if deleted || rootVpn || particlesVpn then do
    let s ← s.onlyIf (deleted || rootVpn) fun s => s.rekeyRootPeer c deleted
    s.onlyIf (deleted || particlesVpn) fun s => s.dropParticlesKeys c
  else .error (.runtime "nothing to rekey")

/-- The peers that stay are the other particles, active or banned. -/
def purgeParticle (p : ℕ) (c : ℕ) : Result RegistryKeys := do
  let (_, m) ← (← s.particlesVpn c).purgeGonePeers (s.uvn.allParticleIds.filter (· ≠ p)) true fun _ => false
  .ok (s.setParticlesVpn c m)

/-- `rekey_particle`, for some cells or for all active ones. -/
def rekeyParticle (p : ℕ) (cells : List ℕ) : Result RegistryKeys :=
  (if cells ≠ [] then cells else s.uvn.activeIds).foldlM (fun s c => s.purgeParticle p c) s

def deleteCell (c : ℕ) : Result RegistryKeys := do
  let s ← s.rekeyCell c false false true
  .ok { s with registry := ← s.registry.deleteCell c }

def deleteParticle (p : ℕ) : Result RegistryKeys := do
  let s ← s.rekeyParticle p []
  .ok { s with registry := { s.registry with uvn := s.uvn.eraseParticle p, dirty := true } }

/-- Saving the registry saves the key material of all VPNs, which is loaded again when it is used next. -/
def save : Result RegistryKeys := do
  let registry ← s.registry.save
  let root ← s.rootVpn.save
  let particles ← s.uvn.allCellIds.foldlM
    (fun (ms : ℕ → Keymat) c => do .ok (Function.update ms c (← (ms c).save))) s.particlesVpns
  .ok { s with
    registry := registry
    rootVpn := .load root.rows
    particlesVpns := fun c => .load (particles c).rows }

end operations

/-- The operations on one cell or one particle. -/
inductive ScopedOp where
  | rekeyCell (c : ℕ) (rootVpn particlesVpn : Bool)
  | deleteCell (c : ℕ)
  | rekeyParticle (p : ℕ) (cells : List ℕ)
  | deleteParticle (p : ℕ)

def ScopedOp.apply (s : RegistryKeys) : ScopedOp → Result RegistryKeys
  | .rekeyCell c rootVpn particlesVpn => s.rekeyCell c rootVpn particlesVpn false
  | .deleteCell c => s.deleteCell c
  | .rekeyParticle p cells => s.rekeyParticle p cells
  | .deleteParticle p => s.deleteParticle p

def ScopedOp.target : ScopedOp → Target
  | .rekeyCell c _ _ => .cell c
  | .deleteCell c => .cell c
  | .rekeyParticle p _ => .particle p
  | .deleteParticle p => .particle p

/-- The cell whose key of the root VPN an operation removes. -/
def ScopedOp.rootPeer : ScopedOp → Option ℕ
  | .rekeyCell c rootVpn _ => if rootVpn then some c else none
  | .deleteCell c => some c
  | _ => none

end RegistryKeys

/-! ### Keys that are spared -/

namespace Keymat

/-- Key material after operations that only remove keys, and spare those at some places. No peer has the id 0,
which stands for the root in the pairs of preshared keys. -/
structure Spares (S : KeyPlace → Prop) (m m' : Keymat) : Prop where
  before : m.Tidy
  zero : m.keys.get? (.peer 0) = none
  tidy : m'.Tidy
  shrinks : ∀ r, m'.After r → r.flag = false → m.After r
  keys : ∀ r, m.After r → r.flag = false → S r.key → m'.After r
  psks : ∀ r, m.presharedKeys.After r → r.flag = false → (∃ p, r.key = ((0, p), 0) ∧ S (.peer p)) →
    m'.presharedKeys.After r
  rows : ∀ r ∈ m'.table.rows, r.flag = false → r ∈ m.table.rows

variable {S S' : KeyPlace → Prop} {m m₁ m' m'' : Keymat} {rows : KeymatRows}

theorem Spares.refl (h : m.Tidy) (hzero : m.keys.get? (.peer 0) = none) : Spares S m m :=
  ⟨h, hzero, h, fun _ hr _ => hr, fun _ hr _ _ => hr, fun _ hr _ _ => hr, fun _ hr _ => hr⟩

theorem Spares.mono (h : Spares S m m') (hsub : ∀ k, S' k → S k) : Spares S' m m' :=
  ⟨h.before, h.zero, h.tidy, h.shrinks, fun r hr hflag hk => h.keys r hr hflag (hsub _ hk),
    fun r hr hflag ⟨p, hkey, hp⟩ => h.psks r hr hflag ⟨p, hkey, hsub _ hp⟩, h.rows⟩

theorem Spares.get?_eq_none (h : Spares S m m') {k : KeyPlace} (hnone : m.keys.get? k = none) :
    m'.keys.get? k = none := by
  rw [Option.eq_none_iff_forall_ne_some]
  intro o hget
  have := (h.before.keys k o).mpr (h.shrinks _ ((h.tidy.keys k o).mp hget) rfl)
  rw [hnone] at this
  cases this

theorem Spares.purgeGonePeers (h : Spares S m m₁) {peerIds gone : List ℕ} {delete : Bool} {deleteMap : ℕ → Bool}
    (hok : m₁.purgeGonePeers peerIds delete deleteMap = .ok (gone, m'))
    (hS : ∀ k, S k → k.Gone peerIds → m.keys.get? k = none) : Spares S m m' := by
  obtain ⟨htidy, hkeys, hpsks⟩ := h.tidy.purgeGonePeers hok
  refine ⟨h.before, h.zero, htidy, fun r hr hflag => ?_, fun r hr hflag hk => ?_, fun r hr hflag hp => ?_,
    fun r hr hflag => h.rows r (mem_table_purgeGonePeers hok hr hflag) hflag⟩
  · exact h.shrinks r ((FlaggedTable.removal_iff_of_not_flag hflag).mp ((hkeys r).mp hr)).1 hflag
  · refine (hkeys r).mpr ((FlaggedTable.removal_iff_of_not_flag hflag).mpr ⟨h.keys r hr hflag hk, fun hgone => ?_⟩)
    obtain ⟨id, k, value, flag⟩ := r
    cases hflag
    have hget := (h.before.keys k ⟨id, value⟩).mpr hr
    rw [hS k hk hgone] at hget
    cases hget
  · refine (hpsks r).mpr ((FlaggedTable.removal_iff_of_not_flag hflag).mpr ⟨h.psks r hr hflag hp, ?_⟩)
    obtain ⟨p, hkey, hp⟩ := hp
    have hgone : ∀ q, q ∈ m₁.gonePeers peerIds → m₁.keys.get? (.peer q) ≠ none ∧ KeyPlace.Gone peerIds (.peer q) := by
      intro q hq
      obtain ⟨hmem, hnot⟩ := List.mem_filter.mp hq
      rw [get?_keys_peer, ne_eq, Dict.get?_eq_none_iff, not_not]
      exact ⟨hmem, of_decide_eq_true hnot⟩
    rw [hkey]
    rintro ⟨-, hzero | hpeer⟩
    · exact (hgone 0 hzero).1 (h.get?_eq_none h.zero)
    · exact (hgone p hpeer).1 (h.get?_eq_none (hS _ hp (hgone p hpeer).2))

theorem Spares.dropKeys (h : Spares S m m₁) {delete : Bool} {deleteMap : ℕ → Bool} {n : ℕ}
    (hok : m₁.dropKeys delete deleteMap = .ok (n, m')) : Spares (fun _ => False) m m' := by
  obtain ⟨htidy, hkeys, -⟩ := h.tidy.dropKeys hok
  refine ⟨h.before, h.zero, htidy, fun r hr hflag => ?_, fun r _ _ hk => hk.elim, fun r _ _ ⟨_, _, hp⟩ => hp.elim,
    fun r hr hflag => h.rows r (mem_table_dropKeys hok hr hflag) hflag⟩
  exact h.shrinks r ((FlaggedTable.removal_iff_of_not_flag hflag).mp ((hkeys r).mp hr)).1 hflag

/-- A key that is spared is active once the key material is saved. -/
theorem Spares.kept (h : Spares S (load rows) m') (hsave : m'.save = .ok m'') {k : KeyPlace} (hk : S k) {v : String}
    (hv : rows.keys.get? k false = some v) : m''.rows.keys.get? k false = some v := by
  obtain ⟨r, hr, rfl, hflag, rfl⟩ := FlaggedTable.get?_eq_some_iff.mp hv
  have hafter : (load rows).After r := (settled_load rows).after_iff.mpr hr
  exact FlaggedTable.get?_eq_some_iff.mpr
    ⟨r, ((save_rows hsave).1 r).mpr (h.keys r hafter hflag hk), rfl, hflag, rfl⟩

theorem Spares.kept_psk (h : Spares S (load rows) m') (hsave : m'.save = .ok m'') {p : ℕ} (hp : S (.peer p))
    {v : String} (hv : rows.psks.get? ((0, p), 0) false = some v) :
    m''.rows.psks.get? ((0, p), 0) false = some v := by
  obtain ⟨r, hr, hkey, hflag, rfl⟩ := FlaggedTable.get?_eq_some_iff.mp hv
  have hafter : (load rows).presharedKeys.After r := VpnKeysMap.after_load.mpr hr
  exact FlaggedTable.get?_eq_some_iff.mpr
    ⟨r, ((save_rows hsave).2 r).mpr (h.psks r hafter hflag ⟨p, hkey, hp⟩), hkey, hflag, rfl⟩

end Keymat

namespace RegistryKeys

variable {s s₁ s' : RegistryKeys} {op : ScopedOp} {R : KeyPlace → Prop} {P : ℕ → KeyPlace → Prop}

/-- A registry whose key material is what loading its rows gives, as it is once the registry was opened or
saved. Ids start at one, so that no key belongs to a peer 0. -/
structure Opened (s : RegistryKeys) : Prop where
  root : s.rootVpn = .load s.rootVpn.rows
  particles : ∀ c, s.particlesVpns c = .load (s.particlesVpns c).rows
  root_zero : s.rootVpn.table.get? (.peer 0) false = none
  particles_zero : ∀ c, (s.particlesVpns c).table.get? (.peer 0) false = none

/-- What operations spare in the root VPN and in the particles VPN of each cell. -/
structure Spares (R : KeyPlace → Prop) (P : ℕ → KeyPlace → Prop) (s s' : RegistryKeys) : Prop where
  root : s.rootVpn.Spares R s'.rootVpn
  particles : ∀ c, (s.particlesVpns c).Spares (P c) (s'.particlesVpns c)
  backbone : s'.backboneVpn = s.backboneVpn
  registry : s'.registry = s.registry

theorem Opened.spares (h : s.Opened) : Spares R P s s := by
  have hload : ∀ (S : KeyPlace → Prop) (m : Keymat), m = .load m.rows → m.table.get? (.peer 0) false = none →
      m.Spares S m := by
    intro S m hm hzero
    have htidy : m.Tidy := hm ▸ Keymat.tidy_load _
    have hsettled : m.Settled := hm ▸ Keymat.settled_load _
    refine .refl htidy ?_
    rw [Keymat.get?_table htidy hsettled] at hzero
    simpa using hzero
  exact ⟨hload _ _ h.root h.root_zero, fun c => hload _ _ (h.particles c) (h.particles_zero c), rfl, rfl⟩

theorem dropOrDelete_eq_ok {deleted deletes : ℕ → Bool} (h : s.dropOrDelete deleted = .ok (deletes, s')) :
    ∃ rekeyed, s' = { s with rekeyed := rekeyed } := by
  unfold dropOrDelete at h
  obtain ⟨⟨ids, s₁⟩, hids, heq⟩ := Except.bind_eq_ok_iff.mp h
  cases heq
  unfold readRekeyedCells at hids
  split_ifs at hids
  · cases hids
    exact ⟨s.rekeyed, rfl⟩
  · unfold rekeyedCells at hids
    cases hrekeyed : s.rekeyed with
    | some ids' =>
      rw [hrekeyed] at hids
      cases hids
      exact ⟨s.rekeyed, rfl⟩
    | none =>
      rw [hrekeyed] at hids
      obtain ⟨ids', -, heq⟩ := Except.bind_eq_ok_iff.mp hids
      cases heq
      exact ⟨some ids, rfl⟩

theorem rekeyRootPeer_eq_ok {c : ℕ} {deleted : Bool} (h : s.rekeyRootPeer c deleted = .ok s') :
    ∃ rekeying rekeyed deletes gone m,
      s.rootVpn.purgeGonePeers (s.uvn.activeIds.filter (· ≠ c)) false deletes = .ok (gone, m) ∧
        s' = { s with rekeying := rekeying, rekeyed := rekeyed, rootVpn := m } := by
  unfold rekeyRootPeer at h
  obtain ⟨⟨deletes, s₁⟩, hdeletes, h⟩ := Except.bind_eq_ok_iff.mp h
  obtain ⟨rekeyed, rfl⟩ := dropOrDelete_eq_ok hdeletes
  obtain ⟨⟨gone, m⟩, hpurge, heq⟩ := Except.bind_eq_ok_iff.mp h
  cases heq
  exact ⟨_, rekeyed, deletes, gone, m, hpurge, rfl⟩

theorem Spares.rekeyRootPeer (h : Spares R P s s₁) {c : ℕ} {deleted : Bool}
    (hok : s₁.rekeyRootPeer c deleted = .ok s')
    (hR : ∀ k, R k → k.Gone (s.uvn.activeIds.filter (· ≠ c)) → s.rootVpn.keys.get? k = none) : Spares R P s s' := by
  obtain ⟨_, _, _, _, m, hpurge, rfl⟩ := rekeyRootPeer_eq_ok hok
  have huvn : s₁.uvn = s.uvn := congrArg Registry.uvn h.registry
  rw [huvn] at hpurge
  exact ⟨h.root.purgeGonePeers hpurge hR, h.particles, h.backbone, h.registry⟩

theorem Spares.setParticlesVpn (h : Spares R P s s₁) {c : ℕ} {m : Keymat} (hm : (s.particlesVpns c).Spares (P c) m) :
    Spares R P s (s₁.setParticlesVpn c m) := by
  refine ⟨h.root, fun d => ?_, h.backbone, h.registry⟩
  change (s.particlesVpns d).Spares (P d) (Function.update s₁.particlesVpns c m d)
  by_cases hd : d = c
  · rw [hd, Function.update_self]
    exact hm
  · rw [Function.update_of_ne hd]
    exact h.particles d

theorem particlesVpn_eq_ok {c : ℕ} {m : Keymat} (h : s.particlesVpn c = .ok m) : m = s.particlesVpns c := by
  unfold particlesVpn at h
  split_ifs at h
  exact (Except.ok.inj h).symm

theorem Spares.dropParticlesKeys (h : Spares R P s s₁) {c : ℕ} (hok : s₁.dropParticlesKeys c = .ok s')
    (hP : ∀ k, ¬ P c k) : Spares R P s s' := by
  obtain ⟨m, hm, hok⟩ := Except.bind_eq_ok_iff.mp hok
  obtain ⟨⟨n, m'⟩, hdrop, heq⟩ := Except.bind_eq_ok_iff.mp hok
  cases heq
  obtain rfl := particlesVpn_eq_ok hm
  exact h.setParticlesVpn (((h.particles c).dropKeys hdrop).mono fun k hk => hP k hk)

theorem Spares.purgeParticle (h : Spares R P s s₁) {p c : ℕ} (hok : s₁.purgeParticle p c = .ok s')
    (hP : ∀ c k, P c k → ¬ k.Gone (s.uvn.allParticleIds.filter (· ≠ p))) : Spares R P s s' := by
  obtain ⟨m, hm, hok⟩ := Except.bind_eq_ok_iff.mp hok
  obtain ⟨⟨gone, m'⟩, hpurge, heq⟩ := Except.bind_eq_ok_iff.mp hok
  cases heq
  obtain rfl := particlesVpn_eq_ok hm
  have huvn : s₁.uvn = s.uvn := congrArg Registry.uvn h.registry
  rw [huvn] at hpurge
  exact h.setParticlesVpn ((h.particles c).purgeGonePeers hpurge fun k hk hgone => absurd hgone (hP c k hk))

theorem Spares.rekeyParticle (h : Spares R P s s₁) {p : ℕ} {cells : List ℕ} (hok : s₁.rekeyParticle p cells = .ok s')
    (hP : ∀ c k, P c k → ¬ k.Gone (s.uvn.allParticleIds.filter (· ≠ p))) : Spares R P s s' :=
  Fold.foldlM_invariant (P := Spares R P s) (fun _ _ _ _ hb hstep => hb.purgeParticle hstep hP) h hok

theorem onlyIf_invariant {I : RegistryKeys → Prop} {b : Bool} {f : RegistryKeys → Result RegistryKeys} (hs : I s)
    (hstep : b = true → ∀ s', f s = .ok s' → I s') (hok : s.onlyIf b f = .ok s') : I s' := by
  unfold onlyIf at hok
  split_ifs at hok with hb
  · exact hstep hb s' hok
  · cases hok
    exact hs

theorem Spares.rekeyCell (h : Spares R P s s₁) {c : ℕ} {rootVpn particlesVpn deleted : Bool}
    (hok : s₁.rekeyCell c rootVpn particlesVpn deleted = .ok s')
    (hR : (deleted || rootVpn) = true → ∀ k, R k → k.Gone (s.uvn.activeIds.filter (· ≠ c)) →
      s.rootVpn.keys.get? k = none)
    (hP : ∀ k, ¬ P c k) : Spares R P s s' := by
  unfold RegistryKeys.rekeyCell at hok
  split_ifs at hok
  obtain ⟨s₂, hroot, hok⟩ := Except.bind_eq_ok_iff.mp hok
  have h₂ : Spares R P s s₂ :=
    onlyIf_invariant (I := Spares R P s) h (fun hb _ hstep => h.rekeyRootPeer hstep (hR hb)) hroot
  exact onlyIf_invariant (I := Spares R P s) h₂ (fun _ _ hstep => h₂.dropParticlesKeys hstep hP) hok

/-! ### The frame -/

theorem save_eq_ok (h : s.save = .ok s') :
    ∃ registry root, ∃ particles : ℕ → Keymat, s.rootVpn.save = .ok root ∧
      (∀ c ∈ s.uvn.allCellIds, (s.particlesVpns c).save = .ok (particles c)) ∧
      (∀ c ∉ s.uvn.allCellIds, particles c = s.particlesVpns c) ∧
      s' = { s with
        registry := registry
        rootVpn := .load root.rows
        particlesVpns := fun c => .load (particles c).rows } := by
  obtain ⟨registry, -, h⟩ := Except.bind_eq_ok_iff.mp h
  obtain ⟨root, hroot, h⟩ := Except.bind_eq_ok_iff.mp h
  obtain ⟨particles, hparticles, heq⟩ := Except.bind_eq_ok_iff.mp h
  cases heq
  obtain ⟨hmem, hother⟩ := (Fold.foldlM_update_iff (fun _ m => Keymat.save m) s.uvn.allCellIds_nodup).mp hparticles
  exact ⟨registry, root, particles, hroot, hmem, hother, rfl⟩

/-- A key that is active keeps its row. -/
def Kept (m m' : Keymat) (k : KeyPlace) : Prop :=
  ∀ v, m.table.get? k false = some v → m'.table.get? k false = some v

/-- The key pair and the preshared key of a peer keep their rows. -/
def KeptPeer (m m' : Keymat) (p : ℕ) : Prop :=
  Kept m m' (.peer p) ∧ ∀ v, m.presharedKeys.table.get? ((0, p), 0) false = some v →
    m'.presharedKeys.table.get? ((0, p), 0) false = some v

/-- The keys that do not involve the target are as they were. -/
structure Frame (t : Target) (s s' : RegistryKeys) : Prop where
  root : Kept s.rootVpn s'.rootVpn .root
  cells : ∀ c ∈ s.uvn.cellRows, t ≠ .cell c.id → KeptPeer s.rootVpn s'.rootVpn c.id
  particlesRoot : ∀ c ∈ s.uvn.cellRows, t ≠ .cell c.id → Kept (s.particlesVpns c.id) (s'.particlesVpns c.id) .root
  particles : ∀ c ∈ s.uvn.cellRows, t ≠ .cell c.id → ∀ p ∈ s.uvn.particleRows, t ≠ .particle p.id →
    KeptPeer (s.particlesVpns c.id) (s'.particlesVpns c.id) p.id
  backbone : s'.backboneVpn = s.backboneVpn

/-- The operation removes a cell's key of the root VPN while a banned cell has one, too. -/
def ScopedOp.Exposed (s : RegistryKeys) (op : ScopedOp) : Prop :=
  ∃ c, op.rootPeer = some c ∧ ∃ d ∈ s.uvn.excludedCells, d.id ≠ c ∧ s.rootVpn.table.get? (.peer d.id) false ≠ none

/-- The places that an operation does not purge from the root VPN. -/
def ScopedOp.SparesRoot (s : RegistryKeys) (op : ScopedOp) (k : KeyPlace) : Prop :=
  ∀ c, op.rootPeer = some c → k.Gone (s.uvn.activeIds.filter (· ≠ c)) → s.rootVpn.keys.get? k = none

/-- The places that an operation does not purge from the particles VPN of a cell. -/
def ScopedOp.SparesParticles (s : RegistryKeys) (op : ScopedOp) (c : ℕ) (k : KeyPlace) : Prop :=
  op.target ≠ .cell c ∧ ∀ p, op.target = .particle p → ¬ k.Gone (s.uvn.allParticleIds.filter (· ≠ p))

theorem ScopedOp.spares (h : s.Opened) (hok : op.apply s = .ok s₁) :
    Spares (op.SparesRoot s) (op.SparesParticles s) s { s₁ with registry := s.registry } ∧
      ∀ d ∈ s.uvn.cellRows, op.target ≠ .cell d.id → d.id ∈ s₁.uvn.allCellIds := by
  have hids : ∀ u : Uvn, (∀ d ∈ s.uvn.cellRows, op.target ≠ .cell d.id → d ∈ u.cellRows) →
      ∀ d ∈ s.uvn.cellRows, op.target ≠ .cell d.id → d.id ∈ u.allCellIds :=
    fun u hu d hd hne => List.mem_map_of_mem (Uvn.mem_allCells.mpr (hu d hd hne))
  have hsame : s₁.registry = s.registry → ∀ d ∈ s.uvn.cellRows, op.target ≠ .cell d.id → d.id ∈ s₁.uvn.allCellIds :=
    fun hregistry => hids s₁.uvn fun d hd _ => by rw [uvn, hregistry]; exact hd
  cases op with
  | rekeyCell c rootVpn particlesVpn =>
    have hspares := h.spares.rekeyCell (R := (ScopedOp.rekeyCell c rootVpn particlesVpn).SparesRoot s)
      (P := (ScopedOp.rekeyCell c rootVpn particlesVpn).SparesParticles s) hok
      (fun hroot k hk => hk c (if_pos (by simpa using hroot))) fun k hk => hk.1 rfl
    exact ⟨⟨hspares.root, hspares.particles, hspares.backbone, rfl⟩, hsame hspares.registry⟩
  | deleteCell c =>
    obtain ⟨s₂, hrekey, hok⟩ := Except.bind_eq_ok_iff.mp hok
    obtain ⟨registry, hdelete, heq⟩ := Except.bind_eq_ok_iff.mp hok
    cases heq
    have hspares := h.spares.rekeyCell (R := (ScopedOp.deleteCell c).SparesRoot s)
      (P := (ScopedOp.deleteCell c).SparesParticles s) hrekey (fun _ k hk => hk c rfl) fun k hk => hk.1 rfl
    refine ⟨⟨hspares.root, hspares.particles, hspares.backbone, rfl⟩, hids registry.uvn fun d hd hne => ?_⟩
    rw [hspares.registry, Registry.deleteCell] at hdelete
    split at hdelete
    · cases hdelete
    · cases hdelete
      refine List.mem_filter.mpr ⟨hd, decide_eq_true fun heq => hne ?_⟩
      rw [heq]
      rfl
  | rekeyParticle p cells =>
    have hspares := h.spares.rekeyParticle (R := (ScopedOp.rekeyParticle p cells).SparesRoot s)
      (P := (ScopedOp.rekeyParticle p cells).SparesParticles s) hok fun c k hk => hk.2 p rfl
    exact ⟨⟨hspares.root, hspares.particles, hspares.backbone, rfl⟩, hsame hspares.registry⟩
  | deleteParticle p =>
    obtain ⟨s₂, hrekey, heq⟩ := Except.bind_eq_ok_iff.mp hok
    cases heq
    have hspares := h.spares.rekeyParticle (R := (ScopedOp.deleteParticle p).SparesRoot s)
      (P := (ScopedOp.deleteParticle p).SparesParticles s) hrekey fun c k hk => hk.2 p rfl
    refine ⟨⟨hspares.root, hspares.particles, hspares.backbone, rfl⟩, hids _ fun d hd _ => ?_⟩
    change d ∈ s₂.registry.uvn.cellRows
    rw [hspares.registry]
    exact hd

theorem ScopedOp.target_of_rootPeer {c : ℕ} (hc : op.rootPeer = some c) : op.target = .cell c := by
  cases op with
  | rekeyCell c' rootVpn particlesVpn =>
    change (if rootVpn = true then some c' else none) = some c at hc
    split_ifs at hc
    cases hc
    rfl
  | deleteCell c' =>
    cases hc
    rfl
  | rekeyParticle p cells => cases hc
  | deleteParticle p => cases hc

/-- The peers that are purged from the root VPN have no active key any more. -/
theorem ScopedOp.purges_root (h : s.Opened) (hok : op.apply s = .ok s₁) {c : ℕ} (hc : op.rootPeer = some c) :
    ∀ r, s₁.rootVpn.After r → r.flag = false → ¬ r.key.Gone (s.uvn.activeIds.filter (· ≠ c)) := by
  have hpurge : ∀ {rootVpn particlesVpn deleted s₂}, (deleted || rootVpn) = true →
      s.rekeyCell c rootVpn particlesVpn deleted = .ok s₂ →
      ∀ r, s₂.rootVpn.After r → r.flag = false → ¬ r.key.Gone (s.uvn.activeIds.filter (· ≠ c)) := by
    intro rootVpn particlesVpn deleted s₂ hroot hok
    unfold RegistryKeys.rekeyCell at hok
    split_ifs at hok
    obtain ⟨s₃, hrekey, hok⟩ := Except.bind_eq_ok_iff.mp hok
    rw [onlyIf, if_pos hroot] at hrekey
    obtain ⟨_, _, _, _, m, hpurge, rfl⟩ := rekeyRootPeer_eq_ok hrekey
    have htidy : s.rootVpn.Tidy := h.root ▸ Keymat.tidy_load _
    obtain ⟨-, hkeys, -⟩ := htidy.purgeGonePeers hpurge
    have hm : s₂.rootVpn = m := by
      refine onlyIf_invariant (I := fun s => s.rootVpn = m) rfl (fun _ s' hstep => ?_) hok
      obtain ⟨_, -, hstep⟩ := Except.bind_eq_ok_iff.mp hstep
      obtain ⟨_, -, heq⟩ := Except.bind_eq_ok_iff.mp hstep
      cases heq
      rfl
    intro r hr hflag
    rw [hm] at hr
    exact ((FlaggedTable.removal_iff_of_not_flag hflag).mp ((hkeys r).mp hr)).2
  cases op with
  | rekeyCell c' rootVpn particlesVpn =>
    change (if rootVpn = true then some c' else none) = some c at hc
    split_ifs at hc with hroot
    cases hc
    exact hpurge (by simpa using hroot) hok
  | deleteCell c' =>
    cases hc
    obtain ⟨s₂, hrekey, hok⟩ := Except.bind_eq_ok_iff.mp hok
    obtain ⟨registry, -, heq⟩ := Except.bind_eq_ok_iff.mp hok
    cases heq
    exact fun r => hpurge rfl hrekey r
  | rekeyParticle p cells => cases hc
  | deleteParticle p => cases hc

/-- For every operation that returns and the save that follows it: the keys that do not involve the target stay
as they were exactly when the operation is not exposed. -/
theorem scoped_iff (h : s.Opened) (hok : op.apply s = .ok s₁) (hsave : s₁.save = .ok s') :
    Frame op.target s s' ↔ ¬ op.Exposed s := by
  obtain ⟨hspares, hids⟩ := ScopedOp.spares h hok
  obtain ⟨registry, root, particles, hroot, hmem, -, rfl⟩ := save_eq_ok hsave
  constructor
  · rintro hframe ⟨c, hc, d, hd, hne, hkey⟩
    obtain ⟨v, hv⟩ := Option.ne_none_iff_exists'.mp hkey
    obtain ⟨hd, hexcluded⟩ := List.mem_filter.mp hd
    have htarget : op.target ≠ .cell d.id := by
      rw [ScopedOp.target_of_rootPeer hc]
      exact fun heq => hne (Target.cell.inj heq).symm
    obtain ⟨r, hr, hrkey, hflag, -⟩ := FlaggedTable.get?_eq_some_iff.mp ((hframe.cells d hd htarget).1 v hv)
    have hgone := ScopedOp.purges_root h hok hc r (((Keymat.save_rows hroot).1 r).mp hr) hflag
    rw [hrkey] at hgone
    refine hgone fun hactive => ?_
    obtain ⟨d', hd', heq⟩ := List.mem_map.mp (List.mem_of_mem_filter hactive)
    obtain ⟨hd', hactive'⟩ := Uvn.mem_cells.mp hd'
    obtain rfl := List.inj_on_of_nodup_map s.uvn.cellIds_nodup hd' hd heq
    rw [hactive'] at hexcluded
    cases hexcluded
  · intro hexposed
    have hload : ∀ {m : Keymat}, m = .load m.rows → ∀ k, m.keys.get? k = none ↔ m.table.get? k false = none := by
      intro m hm k
      rw [Keymat.get?_table (hm ▸ Keymat.tidy_load _) (hm ▸ Keymat.settled_load _), Option.map_eq_none_iff]
    have hrootSpares : Keymat.Spares (op.SparesRoot s) (.load s.rootVpn.rows) s₁.rootVpn := by
      rw [← h.root]
      exact hspares.root
    have hparticles : ∀ c, Keymat.Spares (op.SparesParticles s c) (.load (s.particlesVpns c).rows) (s₁.particlesVpns c) := by
      intro c
      rw [← h.particles]
      exact hspares.particles c
    have hcell : ∀ d ∈ s.uvn.cellRows, op.target ≠ .cell d.id → op.SparesRoot s (.peer d.id) := by
      intro d hd hne c hc hgone
      have hdc : d.id ≠ c := by
        rintro rfl
        exact hne (ScopedOp.target_of_rootPeer hc)
      rw [hload h.root]
      by_contra hkey
      refine hexposed ⟨c, hc, d, List.mem_filter.mpr ⟨hd, ?_⟩, hdc, hkey⟩
      by_contra hactive
      refine hgone (List.mem_filter.mpr ⟨List.mem_map_of_mem (Uvn.mem_cells.mpr ⟨hd, ?_⟩), by simpa using hdc⟩)
      simpa using hactive
    have hparticle : ∀ c ∈ s.uvn.cellRows, op.target ≠ .cell c.id → ∀ p ∈ s.uvn.particleRows,
        op.target ≠ .particle p.id → op.SparesParticles s c.id (.peer p.id) := by
      refine fun c _ hne p hp hnp => ⟨hne, fun q hq hgone => hgone (List.mem_filter.mpr ⟨?_, ?_⟩)⟩
      · exact List.mem_map_of_mem (Uvn.mem_allParticles.mpr hp)
      · simp only [ne_eq, decide_not, Bool.not_eq_true', decide_eq_false_iff_not]
        rintro rfl
        exact hnp hq
    refine ⟨fun v => hrootSpares.kept hroot (k := .root) fun _ _ hgone => absurd hgone (KeyPlace.not_gone_root _),
      fun c hc hne => ⟨fun v => hrootSpares.kept hroot (hcell c hc hne),
        fun v => hrootSpares.kept_psk hroot (hcell c hc hne)⟩,
      fun c hc hne v => (hparticles c.id).kept (hmem _ (hids c hc hne)) ⟨hne, fun _ _ => KeyPlace.not_gone_root _⟩,
      fun c hc hne p hp hnp => ⟨fun v => (hparticles c.id).kept (hmem _ (hids c hc hne)) (hparticle c hc hne p hp hnp),
        fun v => (hparticles c.id).kept_psk (hmem _ (hids c hc hne)) (hparticle c hc hne p hp hnp)⟩,
      hspares.backbone⟩

/-! ### An example -/

/-- An active cell and a banned one. -/
def exampleBannedUvn : Uvn where
  owner := 1
  address := some "registry.example.com"
  enableRootVpn := true
  cellRows := [⟨1, 1, some "a.example.com", [], false⟩, ⟨2, 1, some "b.example.com", [], true⟩]
  particleRows := []
  nextCellId := 2
  nextParticleId := 0
  cellIds_nodup := by decide
  cellIds_le := by decide
  particleIds_nodup := Uvn.nodup_no_particleIds
  particleIds_le := Uvn.no_particleIds_le

/-- The root VPN has keys for both cells. -/
def exampleRootRows : KeymatRows where
  keys := ⟨[⟨1, .root, "root", false⟩, ⟨2, .peer 1, "a", false⟩, ⟨3, .peer 2, "b", false⟩], 3,
    by decide, by decide, by decide⟩
  psks := ⟨[⟨1, ((0, 1), 0), "psk a", false⟩, ⟨2, ((0, 2), 0), "psk b", false⟩], 2, by decide, by decide, by decide⟩

def exampleKeys (uvn : Uvn) (rows : KeymatRows) : RegistryKeys where
  registry := ⟨uvn, [], false⟩
  rekeying := false
  rootVpn := .load rows
  particlesVpns := fun _ => .load ⟨.empty, .empty⟩
  backboneVpn := ⟨∅, ∅, 0⟩
  rekeyed := none

theorem opened_exampleKeys (uvn : Uvn) (rows : KeymatRows) (hzero : rows.keys.get? (.peer 0) false = none) :
    (exampleKeys uvn rows).Opened :=
  ⟨rfl, fun _ => rfl, hzero, fun _ => rfl⟩

/-- Rekeying the active cell takes the key of the banned one. -/
theorem rekeyCell_not_scoped : ∃ s₁ s', ScopedOp.apply (exampleKeys exampleBannedUvn exampleRootRows)
    (.rekeyCell 1 true false) = .ok s₁ ∧ s₁.save = .ok s' ∧
      ¬ Frame (.cell 1) (exampleKeys exampleBannedUvn exampleRootRows) s' := by
  refine ⟨_, _, rfl, rfl, fun hframe => ?_⟩
  have hkept := (hframe.cells ⟨2, 1, some "b.example.com", [], true⟩ (by decide) (by decide)).1 "b" rfl
  exact absurd hkept (by decide)

/-- Rekeying the banned cell takes no other key. -/
theorem rekeyCell_scoped : ∃ s₁ s', ScopedOp.apply (exampleKeys exampleBannedUvn exampleRootRows)
    (.rekeyCell 2 true false) = .ok s₁ ∧ s₁.save = .ok s' ∧
      Frame (.cell 2) (exampleKeys exampleBannedUvn exampleRootRows) s' := by
  have hok := (rfl : ScopedOp.apply (exampleKeys exampleBannedUvn exampleRootRows) (.rekeyCell 2 true false) = .ok _)
  refine ⟨_, _, hok, rfl, (scoped_iff (opened_exampleKeys _ _ rfl) hok rfl).mpr ?_⟩
  rintro ⟨c, hc, d, hd, hne, -⟩
  cases hc
  obtain rfl := List.mem_singleton.mp hd
  exact hne rfl

end RegistryKeys

end Uno
