import Uno.Registry.Transactions

/-!
# Which methods are atomic

A call of a method of the registry is atomic exactly when it `Threads` its cursor: then its inner
transactions all end before its first write. The others have a run in which an inner transaction
commits a write and something raises later (`atomic_iff_threads`).
-/

namespace Uno

open Transaction Prog

namespace RegistryMethods

variable {σ : Type} {s v : σ} {c : Conn σ}

/-! ### What writes nothing, what has no transaction -/

theorem newTransient_dry : newTransient.Dry := trivial

theorem newKeymat_dry : newKeymat.Dry := ⟨trivial, newTransient_dry, trivial⟩

theorem loadRows_dry : loadRows.Dry := ⟨trivial, newTransient_dry, trivial⟩

theorem particlesVpnKeymats_dry (loaded : Bool) (cells : ℕ) : (particlesVpnKeymats loaded cells).Dry := by
  unfold particlesVpnKeymats
  split_ifs
  · trivial
  · trivial
  · exact ⟨loadRows_dry, dry_times newKeymat_dry cells, trivial⟩

theorem particlesVpnKeymats_joined {loaded : Bool} {cells : ℕ} (h : loaded = true ∨ cells = 0) :
    (particlesVpnKeymats loaded cells).Joined := by
  unfold particlesVpnKeymats
  split_ifs with hloaded hcells
  · trivial
  · trivial
  · exact absurd h (not_or.mpr ⟨hloaded, hcells⟩)

theorem dropKeys_joined : dropKeys.Joined := ⟨trivial, trivial, trivial⟩

theorem deleteRows_joined : deleteRows.Joined := ⟨trivial, trivial, trivial⟩

theorem saveRows_joined : saveRows.Joined := ⟨trivial, ⟨trivial, trivial, trivial⟩, trivial⟩

theorem newRow_joined : newRow.Joined := ⟨trivial, trivial, trivial, trivial, trivial⟩

theorem addParticle_joined : addParticle.Joined := ⟨newRow_joined, ⟨trivial, deleteRows_joined⟩, trivial⟩

/-! ### Atomic calls -/

theorem addCell_keeps : (addCell true).Keeps σ :=
  keeps_seq_of_dry trivial <| keeps_seq_of_dry newTransient_dry <| keeps_of_joined
    ⟨newRow_joined, ⟨⟨trivial, trivial, trivial⟩, deleteRows_joined⟩, trivial⟩

theorem configureUvn_dry (config : UvnConfig) : (configureUvn config).Dry := by
  unfold configureUvn
  split_ifs
  · trivial
  · exact ⟨trivial, newTransient_dry, trivial⟩

theorem defineUvn_keeps {config : UvnConfig} {users cells : ℕ} (particles : ℕ) (hconfig : config ≠ .changed)
    (husers : users = 0) (hcells : cells ≤ 1) : (defineUvn false config users cells particles).Keeps σ := by
  subst husers
  have hclean : (false || decide (config = .changed) || decide (0 ≠ 0)) = false := by simpa using hconfig
  unfold defineUvn
  rw [hclean]
  refine keeps_seq_of_dry (configureUvn_dry config) <| keeps_seq_of_dry trivial <|
    keeps_seq_of_dry newTransient_dry <| keeps_seq_of_dry trivial <|
    keeps_seq_of_dry ⟨loadRows_dry, newKeymat_dry, trivial, trivial⟩ <| keeps_seq_of_joined ?_
      ⟨joined_times addParticle_joined particles, trivial⟩
  match cells, hcells with
  | 0, _ => exact keeps_of_joined trivial
  | 1, _ => exact keeps_seq_of_joined addCell_keeps ⟨trivial, trivial⟩

theorem rekeyRoot_keeps : rekeyRoot.Keeps σ :=
  keeps_seq_of_dry loadRows_dry <| keeps_seq_of_dry newKeymat_dry <| keeps_of_joined ⟨dropKeys_joined, trivial⟩

theorem rekey_keeps {rootVpn particlesVpn deleted keymatsLoaded : Bool} {cells : ℕ} (targets : ℕ)
    (h : (keymatsLoaded = true ∨ cells = 0) ∨ deleted = false ∧ (rootVpn = false ∨ particlesVpn = false)) :
    (rekey rootVpn particlesVpn deleted keymatsLoaded cells targets).Keeps σ := by
  have hstart : (if deleted = true then Prog.skip else if (rootVpn || particlesVpn) = true then .point
      else .raise).Dry := by split_ifs <;> trivial
  have hdrop := joined_times dropKeys_joined targets
  refine keeps_seq_of_dry hstart ?_
  by_cases hroot : (deleted || rootVpn) = true
  · rw [if_pos hroot]
    refine keeps_seq_of_joined rekeyRoot_keeps ⟨?_, trivial⟩
    split_ifs with hparticles
    · refine ⟨particlesVpnKeymats_joined (h.resolve_right fun h' => ?_), hdrop, trivial⟩
      rw [h'.1, Bool.false_or] at hroot hparticles
      rcases h'.2 with h' | h'
      · exact Bool.false_ne_true (h'.symm.trans hroot)
      · exact Bool.false_ne_true (h'.symm.trans hparticles)
    · trivial
  · rw [if_neg hroot]
    refine keeps_seq_of_dry trivial <| keeps_seq_of_joined ?_ trivial
    split_ifs
    · exact keeps_seq_of_dry (particlesVpnKeymats_dry _ _) <| keeps_of_joined ⟨hdrop, trivial⟩
    · exact keeps_of_dry trivial

theorem rekeyParticle_keeps : rekeyParticle.Keeps σ :=
  keeps_seq_of_dry trivial <| keeps_seq_of_dry loadRows_dry <| keeps_seq_of_dry newKeymat_dry <|
    keeps_of_joined ⟨dropKeys_joined, trivial⟩

theorem deleteUser_keeps (ownsObjects : Bool) : (deleteUser ownsObjects).Keeps σ :=
  keeps_seq_of_dry loadRows_dry <| keeps_seq_of_dry trivial <| keeps_of_joined
    ⟨by split_ifs <;> trivial, deleteRows_joined, trivial⟩

theorem ban_keeps : ban.Keeps σ :=
  keeps_seq_of_dry loadRows_dry <| keeps_seq_of_dry trivial <| keeps_of_joined
    ⟨saveRows_joined, saveRows_joined, saveRows_joined, trivial⟩

theorem purgeKeys_keeps {keymatsLoaded : Bool} {cells : ℕ} (h : keymatsLoaded = true ∨ cells = 0) :
    (purgeKeys keymatsLoaded cells).Keeps σ :=
  keeps_seq_of_dry loadRows_dry <| keeps_seq_of_dry newKeymat_dry <| keeps_of_joined
    ⟨dropKeys_joined, by split_ifs; exacts [trivial, particlesVpnKeymats_joined h],
      joined_times dropKeys_joined cells, trivial⟩

/-! ### Runs that leak -/

theorem newTransient_commits : Exec newTransient c .returned c.commit := .commit (.pass c)

theorem newKeymat_commits : Exec newKeymat c .returned c.commit := by
  have h : Exec newKeymat c .returned c.commit.commit :=
    .commit (.seq (.pass c) (.seq newTransient_commits (.skip _)))
  exact h

theorem newKeymats_commit (n : ℕ) : Exec (newKeymat.times (n + 1)) c .returned c.commit := by
  induction n generalizing c with
  | zero => exact .seq newKeymat_commits (.skip _)
  | succ n ih =>
    have hrest : Exec (newKeymat.times (n + 1)) c.commit .returned c.commit.commit := ih
    exact .seq newKeymat_commits hrest

theorem loadRows_pass : Exec loadRows c .returned c := .seq (.pass c) (.seq (.done c) (.skip c))

theorem dropKeys_pass : Exec dropKeys c .returned c := .seq (.pass c) (.seq (.done c) (.skip c))

theorem dropKeys_writes (v : σ) : Exec dropKeys c .returned ⟨c.committed, v⟩ :=
  .seq (.pass c) (.seq (.again (.write c v) (.done _)) (.skip _))

theorem newRow_writes (v : σ) : Exec newRow c .returned ⟨c.committed, v⟩ :=
  .seq (.pass c) <| .seq (.write c v) <| .seq (.write _ v) <| .seq (.write _ v) (.skip _)

theorem addCell_leaks (s v : σ) : ∃ s', Exec (addCell false) ⟨s, s⟩ .raised s' ∧ s'.committed = v :=
  ⟨⟨v, v⟩, .seq (.pass _) <| .seq newTransient_commits <| .seq (newRow_writes v) <| .seqRaise <|
    .handled (.seq (.seq (.pass _) (.seq newTransient_commits (.seq (.done _) (.skip _))))
      (.seqRaise (.pointRaise _))) (.seq (.pass _) (.seq (.done _) (.skip _))), rfl⟩

theorem addCell_writes (v : σ) : Exec (addCell true) ⟨s, s⟩ .returned ⟨s, v⟩ :=
  .seq (.pass _) <| .seq newTransient_commits <| .seq (newRow_writes v) <|
    .seq (.guarded (.seq (.skip _) (.seq (.pass _) (.skip _)))) (.skip _)

theorem addUsers_commit (v : σ) (n : ℕ) : Exec (addUser.times (n + 1)) c .returned ⟨v, v⟩ := by
  induction n generalizing c with
  | zero => exact .seq (.commit (newRow_writes v)) (.skip _)
  | succ n ih => exact .seq (.commit (newRow_writes v)) ih

theorem saveRegistry_leaks (c : Conn σ) (v : σ) : ∃ s', Exec (saveRegistry true) c .raised s' ∧ s'.committed = v := by
  refine ⟨⟨v, v⟩, .seq loadRows_pass <| .seq (.done _) <| .seqRaise ?_, rfl⟩
  exact .seq (.pass _) <| .seq (.done _) <| .seq (.write _ v) <| .seq newKeymat_commits <|
    .seqRaise (.rollback (.seqRaise (.pointRaise _)))

theorem configureUvn_pass (config : UvnConfig) : Exec (configureUvn config) c .returned c := by
  unfold configureUvn
  split_ifs
  · exact .skip c
  · exact .seq (.pass c) (.seq (.done c) (.skip c))

theorem defineUvn_leaks {dirty : Bool} {config : UvnConfig} {users cells : ℕ} (particles : ℕ)
    (h : ¬ (dirty = false ∧ config ≠ .changed ∧ users = 0 ∧ cells ≤ 1)) (s v : σ) :
    ∃ s', Exec (defineUvn dirty config users cells particles) ⟨s, s⟩ .raised s' ∧ s'.committed = v := by
  have hconfig := configureUvn_pass (c := (⟨s, s⟩ : Conn σ)) config
  match users with
  | n + 1 =>
    exact ⟨⟨v, v⟩, .seq hconfig <| .seq (.pass _) <| .seq (.done _) <| .seq (addUsers_commit v n) <| .seqRaise <|
      .seqRaise <| .seqRaise (.pointRaise _), rfl⟩
  | 0 =>
    unfold defineUvn
    cases hchanged : dirty || decide (config = .changed) with
    | true =>
      -- saving what has changed leaks
      obtain ⟨s', hleak, hv⟩ := saveRegistry_leaks ⟨s, s⟩ v
      exact ⟨s', .seq hconfig <| .seq (.pass _) <| .seq (.done _) <| .seq (.skip _) <| .seqRaise hleak, hv⟩
    | false =>
      obtain ⟨hdirty, hsame⟩ := Bool.or_eq_false_iff.mp hchanged
      obtain ⟨more, rfl⟩ : ∃ more, cells = more + 2 := ⟨cells - 2, by
        have : ¬ cells ≤ 1 := fun hle => h ⟨hdirty, of_decide_eq_false hsame, rfl, hle⟩
        omega⟩
      -- creating the second cell commits the first
      have hsave : Exec (saveRegistry false) (⟨s, s⟩ : Conn σ) .returned ⟨s, s⟩ :=
        .seq loadRows_pass <| .seq (.done _) <| .seq (.skip _) (.skip _)
      exact ⟨⟨v, v⟩, .seq hconfig <| .seq (.pass _) <| .seq (.done _) <| .seq (.skip _) <| .seq hsave <| .seqRaise <|
        .seq (addCell_writes v) <| .seqRaise <| .seqRaise <| .seq (.pass _) <| .seq newTransient_commits <|
        .seqRaise <| .seqRaise (.pointRaise _), rfl⟩

theorem rekeyRoot_writes (v : σ) : Exec rekeyRoot c .returned ⟨c.committed, v⟩ :=
  .seq loadRows_pass <| .seq (.done _) <| .seq (dropKeys_writes v) (.skip _)

theorem particlesVpnKeymats_commits (n : ℕ) :
    Exec (particlesVpnKeymats false (n + 1)) c .returned c.commit :=
  .seq loadRows_pass <| .seq (newKeymats_commit n) (.skip _)

/-- The key materials of the particle VPNs commit what was written for the root VPN. -/
theorem rekey_leaks {rootVpn particlesVpn deleted keymatsLoaded : Bool} {cells targets : ℕ}
    (hcells : 0 < cells) (htargets : 0 < targets)
    (h : ¬ (keymatsLoaded = true ∨ deleted = false ∧ (rootVpn = false ∨ particlesVpn = false))) (s v : σ) :
    ∃ s', Exec (rekey rootVpn particlesVpn deleted keymatsLoaded cells targets) ⟨s, s⟩ .raised s' ∧
      s'.committed = v := by
  obtain ⟨n, rfl⟩ : ∃ n, cells = n + 1 := ⟨cells - 1, by omega⟩
  obtain ⟨m, rfl⟩ : ∃ m, targets = m + 1 := ⟨targets - 1, by omega⟩
  have hfalse : keymatsLoaded = false := by
    cases keymatsLoaded
    · rfl
    · exact absurd (.inl rfl) h
  have hboth : (deleted || rootVpn) = true ∧ (deleted || particlesVpn) = true := by
    cases deleted <;> cases rootVpn <;> cases particlesVpn <;> simp_all
  have hstart : Exec (if deleted = true then Prog.skip else if (rootVpn || particlesVpn) = true then .point
      else .raise) (⟨s, s⟩ : Conn σ) .returned ⟨s, s⟩ := by
    by_cases hdeleted : deleted = true
    · rw [if_pos hdeleted]
      exact .skip _
    · have hroot : rootVpn = true := by simpa [hdeleted] using hboth.1
      rw [if_neg hdeleted, if_pos (by rw [hroot]; rfl)]
      exact .pass _
  refine ⟨⟨v, v⟩, .seq hstart ?_, rfl⟩
  rw [if_pos hboth.1, if_pos hboth.2, hfalse]
  exact .seq (rekeyRoot_writes v) <| .seqRaise <| .seq (particlesVpnKeymats_commits n) <| .seqRaise <|
    .seqRaise <| .seqRaise (.pointRaise _)

theorem purgeKeys_leaks {cells : ℕ} (hcells : cells ≠ 0) (s v : σ) :
    ∃ s', Exec (purgeKeys false cells) ⟨s, s⟩ .raised s' ∧ s'.committed = v := by
  obtain ⟨n, rfl⟩ := Nat.exists_eq_succ_of_ne_zero hcells
  exact ⟨⟨v, v⟩, .seq loadRows_pass <| .seq (.done _) <| .seq (dropKeys_writes v) <|
    .seq (particlesVpnKeymats_commits n) <| .seqRaise <| .seqRaise <| .seqRaise (.pointRaise _), rfl⟩

theorem dropKeys_times_pass (n : ℕ) : Exec (dropKeys.times n) c .returned c := by
  induction n with
  | zero => exact .skip c
  | succ n ih => exact .seq dropKeys_pass ih

theorem purgeKeys_pass (keymatsLoaded : Bool) (cells : ℕ) :
    Exec (purgeKeys keymatsLoaded cells) ⟨s, s⟩ .returned ⟨s, s⟩ := by
  have hkeymats : Exec (if cells = 0 then Prog.skip else particlesVpnKeymats keymatsLoaded cells)
      (⟨s, s⟩ : Conn σ) .returned ⟨s, s⟩ := by
    match cells, keymatsLoaded with
    | 0, _ => exact .skip _
    | _ + 1, true => exact .skip _
    | n + 1, false => exact particlesVpnKeymats_commits n
  exact .seq loadRows_pass <| .seq (.done _) <| .seq dropKeys_pass <| .seq hkeymats <|
    .seq (dropKeys_times_pass cells) (.skip _)

theorem generateArtifacts_leaks (keymatsLoaded : Bool) (cells : ℕ) (s v : σ) :
    ∃ s', Exec (generateArtifacts keymatsLoaded cells) ⟨s, s⟩ .raised s' ∧ s'.committed = v := by
  obtain ⟨s', hleak, hv⟩ := saveRegistry_leaks ⟨s, s⟩ v
  exact ⟨s', .seq (purgeKeys_pass keymatsLoaded cells) <| .seq (.left (.skip _)) <| .seqRaise hleak, hv⟩

end RegistryMethods

namespace RegistryCall

open RegistryMethods

variable {σ : Type}

theorem keeps_of_threads {m : RegistryCall} (h : m.Threads) : m.body.Keeps σ := by
  cases m with
  | defineUvn dirty config users cells particles =>
    obtain ⟨rfl, hconfig, husers, hcells⟩ := h
    exact defineUvn_keeps particles hconfig husers hcells
  | addCell cellsLoaded =>
    cases h
    exact addCell_keeps
  | addParticle => exact keeps_of_joined addParticle_joined
  | deleteCell keymatsLoaded others =>
    exact keeps_seq_of_dry trivial <| keeps_seq_of_joined (rekey_keeps 1 (.inl (.inl h)))
      ⟨deleteRows_joined, trivial⟩
  | deleteParticle =>
    exact keeps_seq_of_dry trivial <| keeps_seq_of_joined rekeyParticle_keeps ⟨deleteRows_joined, trivial⟩
  | deleteUser ownsObjects => exact deleteUser_keeps ownsObjects
  | ban => exact ban_keeps
  | purgeKeys keymatsLoaded cells => exact purgeKeys_keeps h
  | generateArtifacts keymatsLoaded cells => exact h.elim
  | rekeyUvn rootVpn particlesVpn deleted keymatsLoaded cells => exact rekey_keeps cells h
  | rekeyParticle => exact rekeyParticle_keeps
  | rekeyCell rootVpn particlesVpn deleted keymatsLoaded others => exact rekey_keeps 1 (h.imp_left .inl)
  | generateCellDatabase => exact keeps_of_dry ⟨trivial, newKeymat_dry, trivial, trivial⟩

/-- A call that does not thread its cursor can raise with any other content committed. -/
theorem leaks_of_not_threads {m : RegistryCall} (h : ¬ m.Threads) (s v : σ) :
    ∃ s', Exec m.body ⟨s, s⟩ .raised s' ∧ s'.committed = v := by
  cases m with
  | defineUvn dirty config users cells particles => exact defineUvn_leaks particles h s v
  | addCell cellsLoaded =>
    cases cellsLoaded with
    | true => exact absurd rfl h
    | false => exact addCell_leaks s v
  | addParticle => exact absurd trivial h
  | deleteCell keymatsLoaded others =>
    have hrekey : ∃ s', Exec (rekey false false true keymatsLoaded (others + 1) 1) ⟨s, s⟩ .raised s' ∧
        s'.committed = v := by
      refine rekey_leaks (Nat.succ_pos others) Nat.one_pos (fun h' => h (h'.resolve_right fun h' => ?_)) s v
      exact Bool.noConfusion h'.1
    obtain ⟨s', hleak, hv⟩ := hrekey
    exact ⟨s', .seq (.pass _) <| .seqRaise hleak, hv⟩
  | deleteParticle => exact absurd trivial h
  | deleteUser ownsObjects => exact absurd trivial h
  | ban => exact absurd trivial h
  | purgeKeys keymatsLoaded cells =>
    obtain ⟨hloaded, hcells⟩ := not_or.mp h
    rw [Bool.not_eq_true] at hloaded
    subst hloaded
    exact purgeKeys_leaks hcells s v
  | generateArtifacts keymatsLoaded cells => exact generateArtifacts_leaks keymatsLoaded cells s v
  | rekeyUvn rootVpn particlesVpn deleted keymatsLoaded cells =>
    obtain ⟨hkeymats, hflags⟩ := not_or.mp h
    obtain ⟨hloaded, hcells⟩ := not_or.mp hkeymats
    exact rekey_leaks (Nat.pos_of_ne_zero hcells) (Nat.pos_of_ne_zero hcells) (not_or.mpr ⟨hloaded, hflags⟩) s v
  | rekeyParticle => exact absurd trivial h
  | rekeyCell rootVpn particlesVpn deleted keymatsLoaded others =>
    exact rekey_leaks (Nat.succ_pos others) Nat.one_pos h s v
  | generateCellDatabase => exact absurd trivial h

/-- A call leaves the committed content as it was whenever it raises, exactly if it threads its
cursor. -/
theorem atomic_iff_threads (σ : Type) [Nontrivial σ] (m : RegistryCall) : m.body.Atomic σ ↔ m.Threads := by
  constructor
  · intro hatomic
    by_contra hthreads
    obtain ⟨s, v, hne⟩ := exists_pair_ne σ
    obtain ⟨s', hleak, hv⟩ := leaks_of_not_threads hthreads s v
    exact not_atomic_of_leak hne.symm hleak hv hatomic
  · exact fun h => atomic_of_keeps (keeps_of_threads h)

theorem atomic_iff_threads_addParticle : addParticle.body.Atomic Bool :=
  (atomic_iff_threads Bool .addParticle).mpr trivial

/-- The user that `define_uvn` adds stays when a cell of the same call is rejected. -/
theorem defineUvn_not_atomic : ¬ ∀ m : RegistryCall, m.body.Atomic Bool := by
  intro h
  obtain ⟨s', hleak, hv⟩ := leaks_of_not_threads (m := .defineUvn false .absent 1 1 0)
    (fun hthreads => Nat.one_ne_zero hthreads.2.2.1) false true
  exact not_atomic_of_leak Bool.noConfusion hleak hv (h (.defineUvn false .absent 1 1 0))

end RegistryCall

end Uno
