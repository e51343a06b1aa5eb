import Uno.Agent.Meaning

/-!
# The status of a peer

What the events of a running agent do to the status of a peer: a remote cell or the registry goes online
with a sample about it, or when its writer returns, and offline when its instance goes away or the agent
itself goes offline (`Allowed`). Nothing makes it undiscovered again.
-/

namespace Uno

namespace UvnPeersList

variable {agent : Agent} {l l' : UvnPeersList agent} {e : PeersEvent} {u : Update} {p p' : UvnPeer}

/-! ### Events about a peer -/

/-- A sample about the peer, from its own UVN; excluded cells have none. -/
def SampleAbout (agent : Agent) (e : PeersEvent) (owner : PeerOwner) : Prop :=
  match e with
  | .onReaderDataCellInfo uvn cell _ _ _ _ _ _ =>
    uvn = agent.uvnName ∧ ∃ c ∈ agent.uvn.cells, c.id = cell ∧ owner = .cell c
  | .onReaderDataUvnInfo uvn _ _ _ => uvn = agent.uvnName ∧ owner = .registry
  | _ => False

/-- The writer recorded for the peer is online again. -/
def WriterReturns (e : PeersEvent) (p : UvnPeer) : Prop :=
  match e with
  | .onRemoteWritersStatus topic onlineWriters => topic ≠ .backbone ∧ ∃ w ∈ onlineWriters, p.writer.value = some w
  | _ => False

/-- The instance recorded for the peer is gone. -/
def InstanceGone (e : PeersEvent) (p : UvnPeer) : Prop :=
  match e with
  | .onInstanceOffline topic handle => topic ≠ .backbone ∧ p.instanceHandle.value = some handle
  | _ => False

/-- A sample that names another UVN, or a cell that is unknown or excluded. -/
def Ignored (agent : Agent) (e : PeersEvent) : Prop :=
  match e with
  | .onReaderDataCellInfo uvn cell _ _ _ _ _ _ => uvn ≠ agent.uvnName ∨ cell ∉ agent.uvn.cells.map CellRow.id
  | .onReaderDataUvnInfo uvn _ _ _ => uvn ≠ agent.uvnName
  | _ => False

/-- The events of a running agent: what the middleware reports, the state of the VPN, the results of the
tester, and the agent's own start and end. -/
def Happens (e : PeersEvent) : Prop := ∀ u, e ≠ .updateAll u

/-- The peer of a cell or of the registry. The agent's own one goes online with the agent. -/
def Observed (agent : Agent) (e : PeersEvent) (p : UvnPeer) : Prop :=
  (p.isCell = true ∨ p.isRegistry = true) ∧ (p.owner = agent.owner → ∀ fields, e ≠ .online fields)

/-- The transitions that an event may cause. -/
structure Allowed (agent : Agent) (e : PeersEvent) (p p' : UvnPeer) : Prop where
  declared_online : p.status.value = .declared → p'.status.value = .online → SampleAbout agent e p.owner
  offline_online : p.status.value = .offline → p'.status.value = .online →
    SampleAbout agent e p.owner ∨ WriterReturns e p
  goes_offline : p.status.value ≠ .offline → p'.status.value = .offline → InstanceGone e p ∨ e = .offline
  stays_discovered : p.status.value ≠ .declared → p'.status.value ≠ .declared

/-! ### One update -/

theorem getElem?_updateAll {i : ℕ} (hp' : (l.updateAll u).peers[i]? = some p') :
    ∃ p, l.peers[i]? = some p ∧ p'.owner = p.owner ∧ p'.status.value = (u.apply p).status.value := by
  unfold updateAll processUpdates at hp'
  split_ifs at hp'
  · change ((l.peers.map u.apply).map UvnPeer.save)[i]? = some p' at hp'
    rw [List.map_map, List.getElem?_map, Option.map_eq_some_iff] at hp'
    obtain ⟨p, hp, rfl⟩ := hp'
    refine ⟨p, hp, (UvnPeer.owner_save _).trans (u.owner_apply p), (values_save _).1⟩
  · change (l.peers.map u.apply)[i]? = some p' at hp'
    rw [List.getElem?_map, Option.map_eq_some_iff] at hp'
    obtain ⟨p, hp, rfl⟩ := hp'
    exact ⟨p, hp, u.owner_apply p, rfl⟩

theorem status_apply (p : UvnPeer) (hreset : u.fields.status ≠ .reset) :
    (u.apply p).status.value = p.status.value ∨
      u.appliesTo p = true ∧ u.fields.status = .set (u.apply p).status.value := by
  unfold Update.apply
  split_ifs with happlies
  · rcases hstatus : u.fields.status with _ | _ | status
    · exact .inl (by simp [UvnPeer.configure, Tracked.configure, hstatus])
    · exact absurd hstatus hreset
    · refine .inr ⟨happlies, ?_⟩
      rw [UvnPeer.configure, hstatus, Tracked.value_configure_set]
  · exact .inl rfl

theorem nodup_filter_append {α : Type} {rows : List α} (excluded : α → Bool) (h : rows.Nodup) :
    (rows.filter (fun r => ¬ excluded r) ++ rows.filter fun r => excluded r).Nodup := by
  rw [List.nodup_append]
  refine ⟨h.filter _, h.filter _, fun r hr r' hr' heq => ?_⟩
  have hno := of_decide_eq_true (List.mem_filter.mp hr).2
  rw [heq] at hno
  exact hno (List.mem_filter.mp hr').2

theorem nodup_peerOwners (v : Uvn) : v.peerOwners.Nodup := by
  have hcells : (v.allCells.map PeerOwner.cell).Nodup :=
    (nodup_filter_append CellRow.excluded v.cellIds_nodup.of_map).map fun _ _ h => PeerOwner.cell.inj h
  have hparticles : (v.allParticles.map PeerOwner.particle).Nodup :=
    (nodup_filter_append ParticleRow.excluded v.particleIds_nodup.of_map).map fun _ _ h => PeerOwner.particle.inj h
  rw [Uvn.peerOwners, List.nodup_cons, List.nodup_append]
  refine ⟨by simp, hcells, hparticles, fun o ho o' ho' heq => ?_⟩
  obtain ⟨c, -, rfl⟩ := List.mem_map.mp ho
  obtain ⟨q, -, rfl⟩ := List.mem_map.mp ho'
  cases heq

theorem peer_unique {q : UvnPeer} (hp : p ∈ l.peers) (hq : q ∈ l.peers) (howner : p.owner = q.owner) : p = q := by
  have hnodup : (l.peers.map UvnPeer.owner).Nodup := by
    rw [l.owners]
    exact nodup_peerOwners agent.uvn
  exact List.inj_on_of_nodup_map hnodup hp hq howner

/-! ### One event -/

/-- What an event says about the status of a peer. -/
inductive StatusSet (agent : Agent) (e : PeersEvent) (p : UvnPeer) : UvnPeerStatus → Prop
  | sample (h : SampleAbout agent e p.owner) : StatusSet agent e p .online
  | writer (h : WriterReturns e p) (hstatus : p.status.value = .offline) : StatusSet agent e p .online
  | started (fields : PeerFields) (h : e = .online fields) (howner : p.owner = agent.owner) : StatusSet agent e p .online
  | gone (h : InstanceGone e p) : StatusSet agent e p .offline
  | stopped (h : e = .offline) : StatusSet agent e p .offline
  | vpn (row : ParticleRow) (howner : p.owner = .particle row) (status : UvnPeerStatus) (h : status ≠ .declared) :
      StatusSet agent e p status

theorem applies_updatePeer {owner : PeerOwner} {fields : PeerFields} (h : updatePeer owner fields = some u)
    (happlies : u.appliesTo p = true) : u.fields = fields ∧ p.owner = owner := by
  cases h
  exact ⟨rfl, by simpa [Update.appliesTo] using happlies⟩

/-- The status that an event sets has a cause. -/
theorem statusSet_of_call {status : UvnPeerStatus} (hhappens : Happens e) (hcall : l.call e = some u) (hp : p ∈ l.peers)
    (happlies : u.appliesTo p = true) (hset : u.fields.status = .set status) : StatusSet agent e p status := by
  cases e with
  | updateAll u => exact absurd rfl (hhappens u)
  | online fields =>
    obtain ⟨hfields, howner⟩ := applies_updatePeer hcall happlies
    rw [hfields] at hset
    cases hset
    exact .started fields rfl howner
  | offline =>
    simp only [call] at hcall
    split at hcall
    · cases hcall
    · cases hcall
      cases hset
      exact .stopped rfl
  | onRemoteWritersStatus topic onlineWriters =>
    obtain ⟨owners, rfl, howners⟩ := call_onRemoteWritersStatus hcall
    cases hset
    obtain ⟨q, hq, howner, hoffline, htopic, hwriter⟩ := howners _ (of_decide_eq_true happlies)
    obtain rfl := peer_unique hq hp howner
    exact .writer ⟨htopic, hwriter⟩ hoffline
  | onInstanceOffline topic handle =>
    obtain ⟨htopic, q, hq, hhandle, rfl⟩ := call_onInstanceOffline hcall
    cases hset
    obtain rfl := peer_unique hp hq (applies_updatePeer rfl happlies).2
    exact .gone ⟨htopic, hhandle⟩
  | onReaderDataCellInfo uvn cell registryId routedNetworks knownNetworks tsStart handle writer =>
    obtain ⟨huvn, c, hc, hid, rfl⟩ := call_onReaderDataCellInfo hcall
    cases hset
    exact .sample ⟨huvn, c, hc, hid, (applies_updatePeer rfl happlies).2⟩
  | onReaderDataUvnInfo uvn registryId handle writer =>
    obtain ⟨huvn, rfl⟩ := call_onReaderDataUvnInfo hcall
    cases hset
    exact .sample ⟨huvn, (applies_updatePeer rfl happlies).2⟩
  | updatePeerVpnStats peer vpnInterfaces online =>
    obtain ⟨hfields, howner⟩ := applies_updatePeer hcall happlies
    rw [hfields] at hset
    dsimp only at hset
    split at hset
    · rename_i row q hq
      refine .vpn row howner status ?_
      split_ifs at hset
      all_goals cases hset
      all_goals decide
    · cases hset
  | peersTested knownNetworks =>
    obtain ⟨hfields, -⟩ := applies_updatePeer hcall happlies
    rw [hfields] at hset
    cases hset

theorem not_reset_of_call (hhappens : Happens e) (hcall : l.call e = some u) : u.fields.status ≠ .reset := by
  intro hreset
  cases e with
  | updateAll u => exact absurd rfl (hhappens u)
  | online fields | peersTested knownNetworks =>
    cases hcall
    cases hreset
  | updatePeerVpnStats peer vpnInterfaces online =>
    cases hcall
    dsimp only at hreset
    split at hreset
    · split_ifs at hreset
    · cases hreset
  | offline =>
    simp only [call] at hcall
    split at hcall
    · cases hcall
    · cases hcall
      cases hreset
  | onRemoteWritersStatus topic onlineWriters =>
    obtain ⟨owners, rfl, -⟩ := call_onRemoteWritersStatus hcall
    cases hreset
  | onInstanceOffline topic handle =>
    obtain ⟨-, q, -, -, rfl⟩ := call_onInstanceOffline hcall
    cases hreset
  | onReaderDataCellInfo uvn cell registryId routedNetworks knownNetworks tsStart handle writer =>
    obtain ⟨-, c, -, -, rfl⟩ := call_onReaderDataCellInfo hcall
    cases hreset
  | onReaderDataUvnInfo uvn registryId handle writer =>
    obtain ⟨-, rfl⟩ := call_onReaderDataUvnInfo hcall
    cases hreset

theorem status_step {i : ℕ} (hhappens : Happens e) (hstep : l.step e = .ok l') (hp' : l'.peers[i]? = some p') :
    ∃ p, l.peers[i]? = some p ∧ p'.owner = p.owner ∧
      (p'.status.value = p.status.value ∨ StatusSet agent e p p'.status.value) := by
  unfold step at hstep
  split at hstep
  · cases hstep
    exact ⟨p', hp', rfl, .inl rfl⟩
  · rename_i u hcall
    cases hstep
    obtain ⟨p, hp, howner, hstatus⟩ := getElem?_updateAll hp'
    refine ⟨p, hp, howner, ?_⟩
    rw [hstatus]
    rcases status_apply p (not_reset_of_call hhappens hcall) with hsame | ⟨happlies, hset⟩
    · exact .inl hsame
    · exact .inr (statusSet_of_call hhappens hcall (List.mem_of_getElem? hp) happlies hset)

theorem StatusSet.online_cases (h : StatusSet agent e p .online) (hobs : Observed agent e p) :
    SampleAbout agent e p.owner ∨ WriterReturns e p ∧ p.status.value = .offline := by
  cases h with
  | sample h => exact .inl h
  | writer h hstatus => exact .inr ⟨h, hstatus⟩
  | started fields h howner => exact absurd h (hobs.2 howner fields)
  | vpn row howner _ => rcases hobs.1 with hkind | hkind <;> simp [UvnPeer.isCell, UvnPeer.isRegistry, howner] at hkind

theorem StatusSet.offline_cases (h : StatusSet agent e p .offline) (hobs : Observed agent e p) :
    InstanceGone e p ∨ e = .offline := by
  cases h with
  | gone h => exact .inl h
  | stopped h => exact .inr h
  | vpn row howner _ => rcases hobs.1 with hkind | hkind <;> simp [UvnPeer.isCell, UvnPeer.isRegistry, howner] at hkind

theorem StatusSet.ne_declared {status : UvnPeerStatus} (h : StatusSet agent e p status) : status ≠ .declared := by
  cases h with
  | vpn _ _ _ h => exact h
  | _ => decide

theorem allowed_of_statusSet (hobs : Observed agent e p)
    (h : p'.status.value = p.status.value ∨ StatusSet agent e p p'.status.value) : Allowed agent e p p' := by
  refine ⟨fun hfrom hto => ?_, fun hfrom hto => ?_, fun hfrom hto => ?_, fun hfrom => ?_⟩
  · rcases h with hsame | hset
    · rw [hfrom, hto] at hsame
      cases hsame
    · rw [hto] at hset
      rcases hset.online_cases hobs with hsample | ⟨-, hoffline⟩
      · exact hsample
      · rw [hfrom] at hoffline
        cases hoffline
  · rcases h with hsame | hset
    · rw [hfrom, hto] at hsame
      cases hsame
    · rw [hto] at hset
      exact (hset.online_cases hobs).imp_right And.left
  · rcases h with hsame | hset
    · exact absurd (hsame.symm.trans hto) hfrom
    · rw [hto] at hset
      exact hset.offline_cases hobs
  · rcases h with hsame | hset
    · rwa [hsame]
    · exact hset.ne_declared

theorem status_of_ignored (h : Ignored agent e) (hstep : l.step e = .ok l') : l' = l := by
  have hcall : l.call e = none := by
    cases e with
    | onReaderDataCellInfo uvn cell registryId routedNetworks knownNetworks tsStart handle writer =>
      simp only [call]
      split
      · rfl
      · rename_i huvn
        rcases h with h | h
        · exact absurd h huvn
        · split
          · rfl
          · rename_i c hc
            refine absurd (List.mem_map.mpr ⟨c, List.mem_of_find?_eq_some hc, ?_⟩) h
            simpa using List.find?_some hc
    | onReaderDataUvnInfo uvn registryId handle writer =>
      simp only [call]
      exact if_pos h
    | _ => exact absurd h (fun h => h)
  rw [step, hcall] at hstep
  cases hstep
  rfl

/-! ### Runs -/

theorem discovered_of_reaches {i : ℕ} (hrun : Run.Reaches step (fun _ e => Happens e) l l')
    (hp : l.peers[i]? = some p) (hp' : l'.peers[i]? = some p') (h : p.status.value ≠ .declared) :
    p'.status.value ≠ .declared := by
  have hinv : ∀ q, l'.peers[i]? = some q → q.status.value ≠ .declared := by
    refine hrun.invariant (I := fun l' => ∀ q, l'.peers[i]? = some q → q.status.value ≠ .declared) ?_ ?_
    · intro q hq
      rw [hp] at hq
      cases hq
      exact h
    · intro l₁ e l₂ hinv hhappens hstep q hq
      obtain ⟨q₁, hq₁, -, hsame | hset⟩ := status_step hhappens hstep hq
      · rw [hsame]
        exact hinv q₁ hq₁
      · exact hset.ne_declared
  exact hinv p' hp'

/-- In every run of an agent, whatever the state it is in, the transitions of the peers of cells and of the
registry have the causes they may have, no peer becomes undiscovered again, and a sample that is not about
the UVN changes nothing. -/
theorem liveness (l l' : UvnPeersList agent) (hrun : Run.Reaches step (fun _ e => Happens e) l l') :
    (∀ e l'', Happens e → l'.step e = .ok l'' → ∀ (i : ℕ) (p p' : UvnPeer),
      l'.peers[i]? = some p → l''.peers[i]? = some p' →
        p'.owner = p.owner ∧ (Observed agent e p → Allowed agent e p p') ∧
          (Ignored agent e → p'.status.value = p.status.value)) ∧
    ∀ (i : ℕ) (p p' : UvnPeer), l.peers[i]? = some p → l'.peers[i]? = some p' → p.status.value ≠ .declared →
      p'.status.value ≠ .declared := by
  refine ⟨fun e l'' hhappens hstep i p p' hp hp' => ?_, fun i p p' => discovered_of_reaches hrun⟩
  obtain ⟨q, hq, howner, hstatus⟩ := status_step hhappens hstep hp'
  rw [hp] at hq
  cases hq
  refine ⟨howner, fun hobs => allowed_of_statusSet hobs hstatus, fun hignored => ?_⟩
  rw [status_of_ignored hignored hstep, hp] at hp'
  cases hp'
  rfl

/-- The agent of the only cell of a UVN. -/
def lonelyAgent : Agent where
  uvn := ⟨1, none, true, [⟨1, 1, none, [], false⟩], [], 1, 0, Uvn.nodup_one_cellId, Uvn.one_cellId_le,
    Uvn.nodup_no_particleIds, Uvn.no_particleIds_le⟩
  uvnName := "uvn"
  configId := "config"
  owner := .cell ⟨1, 1, none, [], false⟩

/-- A sample about the UVN, and then the loss of its instance. -/
theorem liveness_sample : ∃ l l', (load lonelyAgent fun _ => none).step
      (.onReaderDataUvnInfo "uvn" (some "config") (some 1) (some 2)) = .ok l ∧
    l.step (.onInstanceOffline .uvnId 1) = .ok l' ∧ l.registry.status.value = .online ∧
    l'.registry.status.value = .offline ∧ Allowed lonelyAgent (.onInstanceOffline .uvnId 1) l.registry l'.registry := by
  have hhappens : Happens (.onInstanceOffline .uvnId 1) := fun u h => by cases h
  refine ⟨_, _, rfl, rfl, by decide, by decide, ?_⟩
  have hrun := liveness (load lonelyAgent fun _ => none) _
    (.step (.onReaderDataUvnInfo "uvn" (some "config") (some 1) (some 2)) .refl (fun u h => by cases h) rfl)
  exact (hrun.1 _ _ hhappens rfl 0 _ _ rfl rfl).2.1 ⟨.inr (by decide), fun h => by cases h⟩

end UvnPeersList

end Uno
