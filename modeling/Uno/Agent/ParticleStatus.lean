import Uno.Agent.Flags
import Uno.Agent.Liveness
import Mathlib.Data.List.Chain

/-!
# The status of particles

The agent of a cell samples the statistics of its VPN interfaces. A particle that is connected goes online, and one
that is not goes offline only if it is so already. So a particle that was connected once stays online
(`particlesSeen_of_run`), and its status follows the VPN exactly as long as no particle disconnects
(`particles_follow_iff`).
-/

namespace Uno

/-! ### Samples -/

/-- The agent's VPNs. -/
inductive VpnKind where
  | root
  | particles
  | backbone
  deriving DecidableEq

/-- The interfaces of an agent with the state of their peers: whether a peer, given by its id, is online. -/
structure VpnSample where
  root : Option (String × Dict ℕ Bool)
  particles : Option (String × Dict ℕ Bool)
  backbone : List (String × Dict ℕ Bool)

/-- The state of a peer of an interface. -/
structure VpnPeerStat where
  kind : VpnKind
  vpn : String
  peerId : ℕ
  online : Bool

namespace VpnSample

def statsOf (kind : VpnKind) (intf : String × Dict ℕ Bool) : List VpnPeerStat :=
  intf.2.entries.map fun e => ⟨kind, intf.1, e.1, e.2⟩

/-- The states in the order of `vpn_interfaces`. -/
def stats (sample : VpnSample) : List VpnPeerStat :=
  sample.root.toList.flatMap (statsOf .root) ++ sample.particles.toList.flatMap (statsOf .particles) ++
    sample.backbone.flatMap (statsOf .backbone)

/-- The particle is connected to the particles VPN. -/
def Connected (sample : VpnSample) (row : ParticleRow) : Prop :=
  ∃ intf, sample.particles = some intf ∧ intf.2.get? row.id = some true

instance (sample : VpnSample) (row : ParticleRow) : Decidable (sample.Connected row) :=
  decidable_of_iff (sample.particles.any fun intf => intf.2.get? row.id = some true) (by
    unfold Connected
    cases sample.particles <;> simp)

end VpnSample

/-! ### Processing a sample -/

namespace UvnPeersList

variable {agent : Agent}

/-- `self.peers[peer_id]`. -/
def peerById (agent : Agent) (peerId : ℕ) : Result PeerOwner :=
  if peerId = 0 then .ok .registry
  else match agent.uvn.allCells.find? fun c => c.id = peerId with
    | none => .error (.key peerId)
    | some c => .ok (.cell c)

def lookupVpnPeer (agent : Agent) (kind : VpnKind) (peerId : ℕ) : Result PeerOwner :=
  match kind with
  | .root => peerById agent peerId
  | .particles =>
    if peerId = 0 then .ok agent.owner
    else match agent.uvn.particles.find? fun p => p.id = peerId with
      | none => .error .stopIteration
      | some p => .ok (.particle p)
  | .backbone => peerById agent peerId

/-- `peers[peer][vpn] = peer_stats`. -/
def addStat (peers : Dict PeerOwner (Dict String Bool)) (stat : PeerOwner × String × Bool) :
    Dict PeerOwner (Dict String Bool) :=
  peers.set stat.1 (((peers.get? stat.1).getD ∅).set stat.2.1 stat.2.2)

/-- The statistics of a sample by peer. -/
def collectStats (agent : Agent) (sample : VpnSample) : Result (Dict PeerOwner (Dict String Bool)) := do
  let stats ← sample.stats.mapM fun stat => do
    let peer ← lookupVpnPeer agent stat.kind stat.peerId
    .ok (peer, stat.vpn, stat.online)
  .ok (stats.foldl addStat ∅)

/-- `next(iter(vpn_stats.values()))["online"]`. -/
def firstOnline (vpnStats : Dict String Bool) : Bool := vpnStats.values.head?.getD false

/-- `Agent._update_peer_vpn_stats`, as often as it is executed. -/
def updatePeerVpnStats (l : UvnPeersList agent) (sample : VpnSample) : Result (UvnPeersList agent) := do
  let peers ← collectStats agent sample
  peers.entries.foldlM (fun l e => l.step (.updatePeerVpnStats e.1 e.2 (firstOnline e.2))) l

/-- What a running agent processes: a sample of its VPNs, or another event. -/
inductive AgentEvent where
  | sample (sample : VpnSample)
  | event (e : PeersEvent)

def process (l : UvnPeersList agent) (event : AgentEvent) : Result (UvnPeersList agent) :=
  match event with
  | .sample sample => l.updatePeerVpnStats sample
  | .event e => l.step e

def AgentEvent.sample? : AgentEvent → Option VpnSample
  | .sample s => some s
  | .event _ => none

/-- Another event than the statistics of a VPN, before the agent goes offline. -/
def AgentEvent.Other : AgentEvent → Prop
  | .sample _ => True
  | .event e => Happens e ∧ e ≠ .offline ∧ ∀ peer vpnInterfaces online, e ≠ .updatePeerVpnStats peer vpnInterfaces online

/-- The status that the samples give a particle: online if it is connected in the latest, undiscovered if it was never
connected, and offline otherwise. -/
def statusBySamples (samples : List VpnSample) (row : ParticleRow) : UvnPeerStatus :=
  if samples.getLast?.any fun sample => sample.Connected row then .online
  else if samples.any fun sample => sample.Connected row then .offline
  else .declared

/-- The peers of particles have the status that the samples give them. -/
def ParticlesFollow (l : UvnPeersList agent) (samples : List VpnSample) : Prop :=
  ∀ p ∈ l.peers, ∀ row, p.owner = .particle row → p.status.value = statusBySamples samples row

/-- What the code promises of an agent: it is that of a cell or of the registry, and ids start at one. -/
structure Agent.Regular (agent : Agent) : Prop where
  owner : ∀ row, agent.owner ≠ .particle row
  ids : ∀ row ∈ agent.uvn.particleRows, row.id ≠ 0

/-! ### The statistics of a particle -/

section collect
variable {sample : VpnSample} {row : ParticleRow} {stat : VpnPeerStat}

theorem peerById_ne_particle {peerId : ℕ} : peerById agent peerId ≠ .ok (.particle row) := by
  unfold peerById
  split_ifs
  · simp
  · split <;> simp

theorem lookupVpnPeer_eq_particle (hagent : Agent.Regular agent)
    (h : lookupVpnPeer agent stat.kind stat.peerId = .ok (.particle row)) :
    stat.kind = .particles ∧ stat.peerId = row.id := by
  cases hkind : stat.kind with
  | root =>
    rw [hkind] at h
    exact absurd h peerById_ne_particle
  | backbone =>
    rw [hkind] at h
    exact absurd h peerById_ne_particle
  | particles =>
    rw [hkind, lookupVpnPeer] at h
    split_ifs at h
    · exact absurd (Except.ok.inj h) (hagent.owner row)
    · split at h
      · cases h
      · rename_i q hq
        obtain rfl := PeerOwner.particle.inj (Except.ok.inj h)
        have hid : q.id = stat.peerId := by simpa using List.find?_some hq
        exact ⟨rfl, hid.symm⟩

theorem mem_particleRows_of_mem_allParticles (h : row ∈ agent.uvn.allParticles) : row ∈ agent.uvn.particleRows := by
  rcases List.mem_append.mp h with h | h
  · exact List.mem_of_mem_filter h
  · exact List.mem_of_mem_filter h

theorem eq_particle_of_lookupVpnPeer (hagent : Agent.Regular agent) (hrow : row ∈ agent.uvn.particleRows)
    {peer : PeerOwner} (h : lookupVpnPeer agent .particles row.id = .ok peer) : peer = .particle row := by
  rw [lookupVpnPeer, if_neg (hagent.ids row hrow)] at h
  split at h
  · cases h
  · rename_i q hq
    have hid : q.id = row.id := by simpa using List.find?_some hq
    have hq' : q ∈ agent.uvn.particleRows := List.mem_of_mem_filter (List.mem_of_find?_eq_some hq)
    obtain rfl : q = row := List.inj_on_of_nodup_map agent.uvn.particleIds_nodup hq' hrow hid
    exact (Except.ok.inj h).symm

theorem filter_stats :
    sample.stats.filter (fun stat => stat.kind = .particles ∧ stat.peerId = row.id) =
      sample.particles.toList.flatMap fun intf =>
        (intf.2.get? row.id).toList.map fun online => ⟨.particles, intf.1, row.id, online⟩ := by
  have hother : ∀ kind, kind ≠ VpnKind.particles → ∀ intf : String × Dict ℕ Bool,
      (VpnSample.statsOf kind intf).filter (fun stat => stat.kind = .particles ∧ stat.peerId = row.id) = [] := by
    intro kind hkind intf
    rw [List.filter_eq_nil_iff]
    intro stat hstat
    obtain ⟨e, -, rfl⟩ := List.mem_map.mp hstat
    simp [hkind]
  have hthis : ∀ intf : String × Dict ℕ Bool,
      (VpnSample.statsOf .particles intf).filter (fun stat => stat.kind = .particles ∧ stat.peerId = row.id) =
        (intf.2.get? row.id).toList.map fun online => ⟨.particles, intf.1, row.id, online⟩ := by
    intro intf
    rw [VpnSample.statsOf, List.filter_map]
    have hkey : (fun stat : VpnPeerStat => decide (stat.kind = .particles ∧ stat.peerId = row.id)) ∘
        (fun e : ℕ × Bool => ⟨.particles, intf.1, e.1, e.2⟩) = fun e => decide (e.1 = row.id) := by
      funext e
      simp
    rw [hkey, Dict.filter_entries, List.map_map]
    rfl
  rw [VpnSample.stats, List.filter_append, List.filter_append, List.filter_flatMap, List.filter_flatMap,
    List.filter_flatMap]
  simp only [hother .root (by decide), hother .backbone (by decide), hthis]
  have hnil : ∀ l : List (String × Dict ℕ Bool), (l.flatMap fun _ => ([] : List VpnPeerStat)) = [] := by simp
  rw [hnil, hnil, List.nil_append, List.append_nil]

theorem get?_collectStats (hagent : Agent.Regular agent) (hrow : row ∈ agent.uvn.particleRows)
    {peers : Dict PeerOwner (Dict String Bool)} (h : collectStats agent sample = .ok peers) :
    (∃ vpnStats, peers.get? (.particle row) = some vpnStats ∧ firstOnline vpnStats = true) ↔ sample.Connected row := by
  obtain ⟨found, hfound, hpeers⟩ := Except.bind_eq_ok_iff.mp h
  obtain rfl := Except.ok.inj hpeers
  have hfilter : found.filter (fun e => e.1 = .particle row) =
      (sample.stats.filter fun stat => stat.kind = .particles ∧ stat.peerId = row.id).map
        fun stat => (.particle row, stat.vpn, stat.online) := by
    have hall := Fold.mapM_eq_ok_iff.mp hfound
    clear h hpeers hfound
    generalize sample.stats = stats at hall
    induction hall with
    | nil => rfl
    | @cons s e rest restFound hhead _ ih =>
      obtain ⟨peer, hpeer, he⟩ := Except.bind_eq_ok_iff.mp hhead
      obtain rfl := Except.ok.inj he
      rw [List.filter_cons, List.filter_cons, ih]
      by_cases hthis : s.kind = .particles ∧ s.peerId = row.id
      · have hpeer' : peer = .particle row := by
          rw [hthis.1, hthis.2] at hpeer
          exact eq_particle_of_lookupVpnPeer hagent hrow hpeer
        rw [if_pos (decide_eq_true hpeer'), if_pos (decide_eq_true hthis), hpeer']
        rfl
      · have hpeer' : peer ≠ .particle row := fun heq =>
          hthis (lookupVpnPeer_eq_particle hagent (heq ▸ hpeer))
        rw [if_neg (by simpa using hpeer'), if_neg (by simpa using hthis)]
  have hget := Dict.get?_foldl_update (fun (vpnStats : Option (Dict String Bool)) (e : PeerOwner × String × Bool) =>
    (vpnStats.getD ∅).set e.2.1 e.2.2) Prod.fst found ∅ (.particle row)
  rw [hfilter, filter_stats, Dict.get?_empty] at hget
  have hget' : (found.foldl addStat ∅).get? (.particle row) = _ := hget
  rw [hget']
  cases hvpn : sample.particles with
  | none => simp [VpnSample.Connected, hvpn]
  | some intf =>
    cases hstat : intf.2.get? row.id with
    | none => simp [VpnSample.Connected, hvpn, hstat]
    | some online =>
      have hfirst : firstOnline ((∅ : Dict String Bool).set intf.1 online) = online := rfl
      simp [VpnSample.Connected, hvpn, hstat, hfirst]

end collect

/-! ### One event -/

section step
variable {l l' : UvnPeersList agent} {p p' : UvnPeer} {u : Update} {row : ParticleRow}

theorem mem_peers_updateAll (hp' : p' ∈ (l.updateAll u).peers) :
    ∃ p ∈ l.peers, p'.owner = p.owner ∧ p'.status.value = (u.apply p).status.value ∧
      p'.writer.value = (u.apply p).writer.value ∧
      p'.instanceHandle.value = (u.apply p).instanceHandle.value := by
  have hall := (forall_peers_updateAll (l := l) (u := u)
    (P := fun p' => ∃ p ∈ l.peers, p'.owner = p.owner ∧ p'.status.value = (u.apply p).status.value ∧
      p'.writer.value = (u.apply p).writer.value ∧
      p'.instanceHandle.value = (u.apply p).instanceHandle.value) ?_).mpr ?_
  · exact hall p' hp'
  · intro q
    have hsave : q.save.owner = q.owner ∧ q.save.status.value = q.status.value ∧
        q.save.writer.value = q.writer.value ∧ q.save.instanceHandle.value = q.instanceHandle.value := by
      unfold UvnPeer.save
      split_ifs <;> exact ⟨rfl, rfl, rfl, rfl⟩
    rw [hsave.1, hsave.2.1, hsave.2.2.1, hsave.2.2.2]
  · exact fun p hp => ⟨p, hp, u.owner_apply p, rfl, rfl, rfl⟩

/-- The peers of particles: they have no writer and no instance, and are online if they were ever seen connected. -/
def ParticlesSeen (l : UvnPeersList agent) (seen : ParticleRow → Prop) : Prop :=
  ∀ p ∈ l.peers, ∀ row, p.owner = .particle row → p.writer.value = none ∧ p.instanceHandle.value = none ∧
    (p.status.value = .online ∧ seen row ∨ p.status.value = .declared ∧ ¬ seen row)

/-- The peer of a particle is the target of nothing but the statistics of the particles VPN. -/
theorem appliesTo_eq_false {e : PeersEvent} {seen : ParticleRow → Prop} (hagent : Agent.Regular agent)
    (hseen : l.ParticlesSeen seen) (hother : AgentEvent.Other (.event e)) (hcall : l.call e = some u) (hp : p ∈ l.peers)
    (howner : p.owner = .particle row) : u.appliesTo p = false := by
  obtain ⟨hwriter, hhandle, -⟩ := hseen p hp row howner
  have hupdate : ∀ {owner fields}, updatePeer owner fields = some u → owner ≠ .particle row → u.appliesTo p = false := by
    intro owner fields hcall hne
    refine Bool.eq_false_iff.mpr fun happlies => ?_
    exact hne ((applies_updatePeer hcall happlies).2.symm.trans howner)
  cases e with
  | updateAll u => exact absurd rfl (hother.1 u)
  | offline => exact absurd rfl hother.2.1
  | updatePeerVpnStats peer vpnInterfaces online => exact absurd rfl (hother.2.2 _ _ _)
  | online fields | peersTested knownNetworks => exact hupdate hcall (hagent.owner row)
  | onReaderDataUvnInfo uvn registryId handle writer =>
    obtain ⟨-, rfl⟩ := call_onReaderDataUvnInfo hcall
    exact hupdate rfl PeerOwner.noConfusion
  | onReaderDataCellInfo uvn cell registryId routedNetworks knownNetworks tsStart handle writer =>
    obtain ⟨-, c, -, -, rfl⟩ := call_onReaderDataCellInfo hcall
    exact hupdate rfl PeerOwner.noConfusion
  | onInstanceOffline topic handle =>
    obtain ⟨-, q, hq, hqhandle, rfl⟩ := call_onInstanceOffline hcall
    refine hupdate rfl fun hqrow => ?_
    obtain rfl := peer_unique hp hq (howner.trans hqrow.symm)
    rw [hhandle] at hqhandle
    cases hqhandle
  | onRemoteWritersStatus topic onlineWriters =>
    obtain ⟨owners, rfl, howners⟩ := call_onRemoteWritersStatus hcall
    refine Bool.eq_false_iff.mpr fun happlies => ?_
    obtain ⟨q, hq, hqowner, -, -, w, -, hqwriter⟩ := howners _ (of_decide_eq_true happlies)
    obtain rfl := peer_unique hq hp hqowner
    rw [hwriter] at hqwriter
    cases hqwriter

theorem ParticlesSeen.event {e : PeersEvent} {seen : ParticleRow → Prop} (hagent : Agent.Regular agent)
    (hseen : l.ParticlesSeen seen) (hother : AgentEvent.Other (.event e)) (hstep : l.step e = .ok l') :
    l'.ParticlesSeen seen := by
  unfold UvnPeersList.step at hstep
  split at hstep
  · cases hstep
    exact hseen
  · rename_i u hcall
    cases hstep
    intro p' hp' row howner'
    obtain ⟨p, hp, howner, hstatus, hwriter, hhandle⟩ := mem_peers_updateAll hp'
    have hkept : u.apply p = p := by
      rw [Update.apply, appliesTo_eq_false hagent hseen hother hcall hp (howner ▸ howner'), if_neg Bool.false_ne_true]
    rw [hkept] at hstatus hwriter hhandle
    rw [hstatus, hwriter, hhandle]
    exact hseen p hp row (howner ▸ howner')

theorem ParticlesSeen.stats {peer : PeerOwner} {vpnInterfaces : Dict String Bool} {online : Bool}
    {seen : ParticleRow → Prop} (hseen : l.ParticlesSeen seen)
    (hstep : l.step (.updatePeerVpnStats peer vpnInterfaces online) = .ok l') :
    l'.ParticlesSeen fun row => seen row ∨ peer = .particle row ∧ online = true := by
  cases hstep
  intro p' hp' row howner'
  obtain ⟨p, hp, howner, hstatus, hwriter, hhandle⟩ := mem_peers_updateAll hp'
  rw [howner'] at howner
  obtain ⟨hpwriter, hphandle, hpstatus⟩ := hseen p hp row howner.symm
  rw [hstatus, hwriter, hhandle]
  by_cases hpeer : peer = .particle row
  · have hfind : l.peers.find? (fun q => q.owner = peer) = some p := by
      cases hq : l.peers.find? (fun q => q.owner = peer) with
      | none => exact absurd (List.find?_eq_none.mp hq p hp) (by simp [hpeer, ← howner])
      | some q =>
        have hqowner : q.owner = peer := by simpa using List.find?_some hq
        rw [peer_unique (List.mem_of_find?_eq_some hq) hp (hqowner.trans (hpeer.trans howner))]
    subst hpeer
    simp only [hfind]
    rw [Update.apply, if_pos (by simp [Update.appliesTo, ← howner])]
    refine ⟨hpwriter, hphandle, ?_⟩
    cases online with
    | true =>
      refine .inl ⟨?_, by simp⟩
      exact @Tracked.value_configure_set _ _ p.status .declared .online
    | false =>
      have hne : p.status.value ≠ .offline := by
        rcases hpstatus with h | h <;> simp [h.1]
      have hsame : (p.configure { vpnInterfaces := .set vpnInterfaces, status := .absent }).status = p.status := rfl
      simpa [hne, hsame] using hpstatus
  · have happlies : ∀ fields, Update.apply ⟨some [peer], fields⟩ p = p := by
      intro fields
      exact if_neg (by simpa [Update.appliesTo, ← howner] using Ne.symm hpeer)
    rw [happlies]
    refine ⟨hpwriter, hphandle, ?_⟩
    simpa [hpeer] using hpstatus

theorem ParticlesSeen.sample {sample : VpnSample} {seen : ParticleRow → Prop} (hagent : Agent.Regular agent)
    (hseen : l.ParticlesSeen seen) (hstep : l.updatePeerVpnStats sample = .ok l') :
    l'.ParticlesSeen fun row => seen row ∨ sample.Connected row := by
  obtain ⟨peers, hpeers, hfold⟩ := Except.bind_eq_ok_iff.mp hstep
  have hfolded : ∀ (entries : List (PeerOwner × Dict String Bool)) (l : UvnPeersList agent)
      (seen : ParticleRow → Prop), l.ParticlesSeen seen →
      entries.foldlM (fun l e => l.step (.updatePeerVpnStats e.1 e.2 (firstOnline e.2))) l = .ok l' →
      l'.ParticlesSeen fun row => seen row ∨ ∃ e ∈ entries, e.1 = .particle row ∧ firstOnline e.2 = true := by
    intro entries
    induction entries with
    | nil =>
      intro l seen hseen hfold
      obtain rfl := Except.ok.inj hfold
      simpa using hseen
    | cons e rest ih =>
      intro l seen hseen hfold
      rw [List.foldlM_cons] at hfold
      obtain ⟨l₁, hl₁, hfold⟩ := Except.bind_eq_ok_iff.mp hfold
      have hrest := ih l₁ _ (hseen.stats hl₁) hfold
      simpa only [List.mem_cons, exists_eq_or_imp, or_assoc] using hrest
  intro p hp row howner
  have hrow : row ∈ agent.uvn.particleRows := by
    have hmem : PeerOwner.particle row ∈ agent.uvn.peerOwners := by
      rw [← l'.owners, ← howner]
      exact List.mem_map_of_mem hp
    have hall : row ∈ agent.uvn.allParticles := by simpa [Uvn.peerOwners] using hmem
    exact mem_particleRows_of_mem_allParticles hall
  have hcollected := get?_collectStats hagent hrow hpeers
  simp only [Dict.get?_eq_some_iff] at hcollected
  have hentries : (∃ e ∈ peers.entries, e.1 = .particle row ∧ firstOnline e.2 = true) ↔ sample.Connected row := by
    rw [← hcollected]
    constructor
    · rintro ⟨e, he, hkey, hfirst⟩
      exact ⟨e.2, hkey ▸ he, hfirst⟩
    · rintro ⟨vpnStats, he, hfirst⟩
      exact ⟨_, he, rfl, hfirst⟩
  show _ ∧ _ ∧ (_ ∧ (seen row ∨ sample.Connected row) ∨ _ ∧ ¬ (seen row ∨ sample.Connected row))
  rw [← hentries]
  exact hfolded peers.entries l seen hseen hfold p hp row howner

end step

/-! ### Runs -/

/-- The samples among some events. -/
def samplesOf (events : List AgentEvent) : List VpnSample := events.filterMap AgentEvent.sample?

theorem particlesSeen_load (rows : PeerOwner → Option PeerRow) :
    (load agent rows).ParticlesSeen fun _ => False := by
  intro p hp row _
  obtain ⟨owner, -, rfl⟩ := List.mem_map.mp hp
  refine ⟨?_, ?_, .inr ⟨?_, not_false⟩⟩
  all_goals split
  · rfl
  · rfl
  · rfl
  · rfl
  · rfl
  · exact @Tracked.value_configure_set UvnPeerStatus _ _ .declared .declared

theorem particlesSeen_of_run (hagent : Agent.Regular agent) {rows : PeerOwner → Option PeerRow}
    {events : List AgentEvent} (hevents : ∀ event ∈ events, event.Other) {l : UvnPeersList agent}
    (hrun : events.foldlM process (load agent rows) = .ok l) :
    l.ParticlesSeen fun row => ∃ sample ∈ samplesOf events, sample.Connected row := by
  have hall : ∀ (events : List AgentEvent) (l₀ : UvnPeersList agent) (seen : ParticleRow → Prop),
      (∀ event ∈ events, event.Other) → l₀.ParticlesSeen seen → events.foldlM process l₀ = .ok l →
      l.ParticlesSeen fun row => seen row ∨ ∃ sample ∈ samplesOf events, sample.Connected row := by
    intro events
    induction events with
    | nil =>
      intro l₀ seen _ hseen hrun
      obtain rfl := Except.ok.inj hrun
      simpa [samplesOf] using hseen
    | cons event rest ih =>
      intro l₀ seen hevents hseen hrun
      rw [List.foldlM_cons] at hrun
      obtain ⟨l₁, hl₁, hrun'⟩ := Except.bind_eq_ok_iff.mp hrun
      have hrest := fun event hevent => hevents event (List.mem_cons_of_mem _ hevent)
      cases event with
      | sample sample =>
        have hfollow := ih l₁ _ hrest (hseen.sample hagent hl₁) hrun'
        have hsamples : samplesOf (.sample sample :: rest) = sample :: samplesOf rest := rfl
        simpa only [hsamples, List.mem_cons, exists_eq_or_imp, or_assoc] using hfollow
      | event e =>
        exact ih l₁ _ hrest (hseen.event hagent (hevents _ List.mem_cons_self) hl₁) hrun'
  simpa using hall events _ _ hevents (particlesSeen_load rows) hrun

/-- A particle that some sample has seen connected is connected in the latest one. -/
def SeenIsConnected (agent : Agent) (samples : List VpnSample) : Prop :=
  ∀ row ∈ agent.uvn.allParticles, (∃ sample ∈ samples, sample.Connected row) →
    ∃ sample ∈ samples.getLast?, sample.Connected row

/-- No particle that is connected in a sample is missing in the next one. -/
def StayConnected (agent : Agent) (samples : List VpnSample) : Prop :=
  samples.IsChain fun sample sample' => ∀ row ∈ agent.uvn.allParticles, sample.Connected row → sample'.Connected row

theorem particlesFollow_iff_seen {l : UvnPeersList agent} {samples : List VpnSample}
    (hseen : l.ParticlesSeen fun row => ∃ sample ∈ samples, sample.Connected row) :
    l.ParticlesFollow samples ↔ SeenIsConnected agent samples := by
  have hmem : ∀ row, row ∈ agent.uvn.allParticles ↔ ∃ p ∈ l.peers, p.owner = .particle row := by
    intro row
    have howners : PeerOwner.particle row ∈ l.peers.map UvnPeer.owner ↔ row ∈ agent.uvn.allParticles := by
      rw [l.owners]
      simp [Uvn.peerOwners]
    rw [← howners, List.mem_map]
  have hpeer : ∀ p ∈ l.peers, ∀ row, p.owner = .particle row →
      (p.status.value = statusBySamples samples row ↔ ((∃ sample ∈ samples, sample.Connected row) →
        ∃ sample ∈ samples.getLast?, sample.Connected row)) := by
    intro p hp row howner
    have hlast : (samples.getLast?.any fun sample => sample.Connected row) = true ↔
        ∃ sample ∈ samples.getLast?, sample.Connected row := by
      cases samples.getLast? <;> simp
    have hany : (samples.any fun sample => sample.Connected row) = true ↔
        ∃ sample ∈ samples, sample.Connected row := by simp
    simp only [statusBySamples, hlast, hany]
    by_cases hl : ∃ sample ∈ samples.getLast?, sample.Connected row
    · have hs : ∃ sample ∈ samples, sample.Connected row := by
        obtain ⟨sample, hsample, hconnected⟩ := hl
        exact ⟨sample, List.mem_of_getLast? hsample, hconnected⟩
      rcases (hseen p hp row howner).2.2 with ⟨hstatus, -⟩ | ⟨-, hnot⟩
      · rw [if_pos hl, hstatus]
        exact iff_of_true rfl fun _ => hl
      · exact absurd hs hnot
    · rw [if_neg hl]
      rcases (hseen p hp row howner).2.2 with ⟨hstatus, hs⟩ | ⟨hstatus, hs⟩
      · rw [if_pos hs, hstatus]
        exact iff_of_false (by decide) fun h => hl (h hs)
      · rw [if_neg hs, hstatus]
        exact iff_of_true rfl fun h => absurd h hs
  constructor
  · intro hfollow row hrow
    obtain ⟨p, hp, howner⟩ := (hmem row).mp hrow
    exact (hpeer p hp row howner).mp (hfollow p hp row howner)
  · intro hlast p hp row howner
    exact (hpeer p hp row howner).mpr (hlast row ((hmem row).mpr ⟨p, hp, howner⟩))

theorem seenIsConnected_concat_iff {samples : List VpnSample} {sample : VpnSample}
    (hseen : SeenIsConnected agent samples) :
    SeenIsConnected agent (samples ++ [sample]) ↔ (List.IsChain (fun sample sample' =>
      ∀ row ∈ agent.uvn.allParticles, sample.Connected row → sample'.Connected row) [sample] ∧
      ∀ last ∈ samples.getLast?, ∀ sample' ∈ [sample].head?, ∀ row ∈ agent.uvn.allParticles,
        last.Connected row → sample'.Connected row) := by
  have hlast : (samples ++ [sample]).getLast? = some sample := by simp
  rw [and_iff_right (List.isChain_singleton _)]
  constructor
  · intro h last hlast' sample' hsample' row hrow hconnected
    obtain rfl : sample = sample' := by simpa using hsample'
    have hmem : last ∈ samples ++ [sample] := List.mem_append_left _ (List.mem_of_getLast? hlast')
    obtain ⟨s, hs, hs'⟩ := h row hrow ⟨last, hmem, hconnected⟩
    rw [hlast] at hs
    rwa [Option.some.inj hs]
  · intro h row hrow hmem
    obtain ⟨s, hs, hconnected⟩ := hmem
    refine ⟨sample, hlast, ?_⟩
    rcases List.mem_append.mp hs with hs | hs
    · obtain ⟨last, hlast', hconnected'⟩ := hseen row hrow ⟨s, hs, hconnected⟩
      exact h last hlast' sample rfl row hrow hconnected'
    · rwa [← List.mem_singleton.mp hs]

theorem forall_prefix_iff (events : List AgentEvent) :
    (∀ pre, pre <+: events → SeenIsConnected agent (samplesOf pre)) ↔ StayConnected agent (samplesOf events) := by
  induction events using List.reverseRecOn with
  | nil => simp [SeenIsConnected, StayConnected, samplesOf]
  | append_singleton events event ih =>
    have hall : (∀ pre, pre <+: events ++ [event] → SeenIsConnected agent (samplesOf pre)) ↔
        SeenIsConnected agent (samplesOf (events ++ [event])) ∧ StayConnected agent (samplesOf events) := by
      simp only [List.prefix_concat_iff, or_imp, forall_and, forall_eq, ih]
    have hself : StayConnected agent (samplesOf events) → SeenIsConnected agent (samplesOf events) :=
      fun h => ih.mpr h events (List.prefix_refl events)
    rw [hall]
    cases event with
    | event e =>
      have hsamples : samplesOf (events ++ [.event e]) = samplesOf events := by simp [samplesOf, AgentEvent.sample?]
      rw [hsamples]
      exact ⟨And.right, fun h => ⟨hself h, h⟩⟩
    | sample sample =>
      have hsamples : samplesOf (events ++ [.sample sample]) = samplesOf events ++ [sample] := by
        simp [samplesOf, AgentEvent.sample?]
      have hchain : StayConnected agent (samplesOf events ++ [sample]) ↔ StayConnected agent (samplesOf events) ∧ _ :=
        List.isChain_append
      rw [hsamples, hchain, and_comm]
      refine and_congr_right fun hstay => ?_
      exact seenIsConnected_concat_iff (hself hstay)

/-- In a run of an agent, whatever the peers it finds, the status of the particles follows the VPN after every
sample if and only if no particle that is connected in a sample is missing in the next one. -/
theorem particles_follow_iff (hagent : Agent.Regular agent) (rows : PeerOwner → Option PeerRow)
    (events : List AgentEvent) (hevents : ∀ event ∈ events, event.Other) (l : UvnPeersList agent)
    (hrun : events.foldlM process (load agent rows) = .ok l) :
    (∀ pre l', pre <+: events → pre.foldlM process (load agent rows) = .ok l' →
      l'.ParticlesFollow (samplesOf pre)) ↔ StayConnected agent (samplesOf events) := by
  rw [← forall_prefix_iff]
  have hseen : ∀ pre l', pre <+: events → pre.foldlM process (load agent rows) = .ok l' →
      (l'.ParticlesFollow (samplesOf pre) ↔ SeenIsConnected agent (samplesOf pre)) := by
    intro pre l' hpre hrun'
    refine particlesFollow_iff_seen (particlesSeen_of_run hagent (fun event hevent => ?_) hrun')
    exact hevents event (hpre.subset hevent)
  constructor
  · intro hfollow pre hpre
    have hrun' := hrun
    obtain ⟨rest, rfl⟩ := hpre
    rw [List.foldlM_append] at hrun'
    obtain ⟨l', hl', -⟩ := Except.bind_eq_ok_iff.mp hrun'
    have hpre : pre <+: pre ++ rest := List.prefix_append pre rest
    exact (hseen pre l' hpre hl').mp (hfollow pre l' hpre hl')
  · intro hlast pre l' hpre hrun'
    exact (hseen pre l' hpre hrun').mpr (hlast pre hpre)

/-- The agent of the only cell of a UVN with one particle. -/
def particleAgent : Agent where
  uvn := ⟨1, none, true, [⟨1, 1, none, [], false⟩], [⟨1, 1, false⟩], 1, 1,
    Uvn.nodup_one_cellId, Uvn.one_cellId_le, Uvn.nodup_one_particleId, Uvn.one_particleId_le⟩
  uvnName := "uvn"
  configId := "config"
  owner := .cell ⟨1, 1, none, [], false⟩

/-- The particle is connected, or not. -/
def particleSample (online : Bool) : VpnSample := ⟨none, some ("particles", (∅ : Dict ℕ Bool).set 1 online), []⟩

theorem particleAgent_regular : Agent.Regular particleAgent where
  owner row h := by cases h
  ids := by decide

/-- The particle connects, and stays connected. -/
theorem particles_follow_connected : ∃ l, [AgentEvent.sample (particleSample false), .sample (particleSample true)].foldlM
    process (load particleAgent fun _ => none) = .ok l ∧
      l.ParticlesFollow (samplesOf [.sample (particleSample false), .sample (particleSample true)]) := by
  refine ⟨_, rfl, ?_⟩
  refine (particles_follow_iff particleAgent_regular (fun _ => none) _ ?_ _ rfl).mpr ?_ _ _ (List.prefix_refl _) rfl
  · simp [AgentEvent.Other]
  · show List.IsChain _ [particleSample false, particleSample true]
    rw [List.isChain_pair]
    decide

/-- The particle disconnects, and remains online. -/
theorem particle_stays_online : ∃ l, [AgentEvent.sample (particleSample true), .sample (particleSample false)].foldlM
    process (load particleAgent fun _ => none) = .ok l ∧
      ¬ l.ParticlesFollow (samplesOf [.sample (particleSample true), .sample (particleSample false)]) := by
  refine ⟨_, rfl, fun h => ?_⟩
  have hstatus := h _ (List.mem_of_getElem? (i := 2) rfl) ⟨1, 1, false⟩ rfl
  revert hstatus
  decide

end UvnPeersList

end Uno
