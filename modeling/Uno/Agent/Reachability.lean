import Uno.Agent.Flags
import Uno.Agent.Liveness
import Mathlib.Data.Finset.SDiff

/-!
# Events about reachable networks

`_process_updates` tells its listeners which networks became reachable and which ceased to be, for the agent's own peer
and for all others. It reconstructs the difference from the statuses whose flag was changed: all networks that are
reachable now count as new, unless their flag was taken away, and a network that is no longer known does not count as
gone. `reachable_events_iff` says for which updates the event is the difference all the same.
-/

namespace Uno

/-- The peers an event is about: the agent's own one, or all others. -/
inductive ReachableScope where
  | own
  | others
  deriving DecidableEq

def ReachableScope.includes (agent : Agent) (owner : PeerOwner) : ReachableScope → Bool
  | own => owner = agent.owner
  | others => owner ≠ agent.owner

/-- The two sets delivered with `LOCAL_REACHABLE_NETWORKS` and `REACHABLE_NETWORKS`. A `LanStatus` is compared by its
owner and its LAN. -/
structure ReachableEvent where
  new : Finset (PeerOwner × LanDescriptor)
  gone : Finset (PeerOwner × LanDescriptor)

namespace UvnPeersList

variable {agent : Agent}

/-! ### The events -/

section events
variable (l : UvnPeersList agent)

/-- The LAN statuses of some peers that satisfy a test. -/
def lanStatuses (scope : ReachableScope) (P : PeerStatus LanDescriptor → Bool) : Finset (PeerOwner × LanDescriptor) :=
  ((l.peers.filter fun p => scope.includes agent p.owner).flatMap fun p =>
    (p.knownNetworks.filter P).map fun s => (p.owner, s.key)).toFinset

def reachableNetworks (scope : ReachableScope) : Finset (PeerOwner × LanDescriptor) :=
  l.lanStatuses scope fun s => s.flag.value

/-- The statuses with `"reachable" in prev_vals`. -/
def changedReachable (scope : ReachableScope) : Finset (PeerOwner × LanDescriptor) :=
  l.lanStatuses scope fun s => s.flag.prev.isSome

def prevReachable (scope : ReachableScope) : Finset (PeerOwner × LanDescriptor) :=
  l.lanStatuses scope fun s => s.flag.prev = some true

def localOnline : Bool := l.localPeer.any fun p => p.status.value = .online

/-- The event of `_process_updates`. `_notify` delivers nothing unless the local peer is online. -/
def reachableEvent (scope : ReachableScope) : Option ReachableEvent :=
  if l.dirty = false ∨ l.changedReachable scope = ∅ then none
  else
    let gone := l.prevReachable scope \ l.reachableNetworks scope
    let new := l.reachableNetworks scope \ l.prevReachable scope
    if scope = .others ∧ gone = ∅ ∧ new = ∅ then none
    else if l.localOnline then some ⟨new, gone⟩
    else none

end events

/-- The event is the difference between the networks before and after; no event means no difference. -/
def ExactDifference (before after : Finset (PeerOwner × LanDescriptor)) : Option ReachableEvent → Prop
  | none => after \ before = ∅ ∧ before \ after = ∅
  | some event => event.new = after \ before ∧ event.gone = before \ after

instance (before after : Finset (PeerOwner × LanDescriptor)) (event : Option ReachableEvent) :
    Decidable (ExactDifference before after event) :=
  match event with
  | none => inferInstanceAs (Decidable (_ ∧ _))
  | some _ => inferInstanceAs (Decidable (_ ∧ _))

end UvnPeersList

/-! ### The condition on an update -/

namespace Update

/-- What the update reports to a peer about its networks. -/
def reported (u : Update) (p : UvnPeer) : Arg (Dict LanDescriptor Bool) :=
  if u.appliesTo p then u.fields.knownNetworks else .absent

variable {agent : Agent} (u : Update) (l : UvnPeersList agent) (scope : ReachableScope)

/-- A network that is reachable is no longer known. -/
def Forgets : Prop :=
  ∃ p ∈ l.peers, scope.includes agent p.owner = true ∧ ∃ lan, p.reaches lan = true ∧
    (u.reported p = .reset ∨ ∃ flags, u.reported p = .set flags ∧ flags.get? lan = none)

/-- A network is reported as reachable that was not, or the other way around. -/
def Flips : Prop :=
  ∃ p ∈ l.peers, scope.includes agent p.owner = true ∧ ∃ flags lan reachable, u.reported p = .set flags ∧
    flags.get? lan = some reachable ∧ p.reaches lan ≠ reachable

/-- A network that is reachable stays so. -/
def Keeps : Prop :=
  ∃ p ∈ l.peers, scope.includes agent p.owner = true ∧ ∃ lan, p.reaches lan = true ∧
    (u.reported p = .absent ∨ ∃ flags, u.reported p = .set flags ∧ flags.get? lan = some true)

end Update

/-! ### The statuses of a peer -/

theorem PeerStatus.flag_setFlag {κ : Type} [DecidableEq κ] (s : PeerStatus κ) (flag : Bool) :
    (s.setFlag flag).flag = s.flag.set flag := by
  unfold setFlag
  split_ifs with h
  · exact (if_pos h).symm
  · rfl

/-- The LANs of the statuses are distinct, and no change is pending. -/
structure UvnPeer.Settled (p : UvnPeer) : Prop where
  nodup : (p.knownNetworks.map PeerStatus.key).Nodup
  prev : ∀ s ∈ p.knownNetworks, s.flag.prev = none

namespace UvnPeersList

section peer
variable {p : UvnPeer} {u : Update} {lan : LanDescriptor}

theorem find?_status (hp : p.Settled) {s : PeerStatus LanDescriptor} (hs : s ∈ p.knownNetworks) :
    (p.knownNetworks.find? fun t => t.key = s.key) = some s := by
  cases hfind : p.knownNetworks.find? fun t => t.key = s.key with
  | none => exact absurd (List.find?_eq_none.mp hfind s hs) (by simp)
  | some t =>
    have hkey : t.key = s.key := by simpa using List.find?_some hfind
    rw [List.inj_on_of_nodup_map hp.nodup (List.mem_of_find?_eq_some hfind) hs hkey]

theorem reaches_iff (hp : p.Settled) : p.reaches lan = true ↔ ∃ s ∈ p.knownNetworks, s.flag.value = true ∧ s.key = lan := by
  unfold UvnPeer.reaches
  constructor
  · intro h
    cases hfind : p.knownNetworks.find? fun s => s.key = lan with
    | none => simp [hfind] at h
    | some s => exact ⟨s, List.mem_of_find?_eq_some hfind, by simpa [hfind] using h, by simpa using List.find?_some hfind⟩
  · rintro ⟨s, hs, hflag, rfl⟩
    rw [find?_status hp hs]
    exact hflag

theorem old_status (hp : p.Settled) : ((p.knownNetworks.find? fun s => s.key = lan).getD (.new lan)).key = lan ∧
    ((p.knownNetworks.find? fun s => s.key = lan).getD (.new lan)).flag = ⟨p.reaches lan, none⟩ := by
  unfold UvnPeer.reaches
  cases hfind : p.knownNetworks.find? fun s => s.key = lan with
  | none => exact ⟨rfl, rfl⟩
  | some s =>
    refine ⟨by simpa using List.find?_some hfind, ?_⟩
    show s.flag = ⟨s.flag.value, none⟩
    rw [← hp.prev s (List.mem_of_find?_eq_some hfind)]

theorem knownNetworks_apply : (u.apply p).knownNetworks = configureStatuses p.knownNetworks (u.reported p) := by
  unfold Update.apply Update.reported
  split_ifs <;> rfl

theorem mem_apply_iff (hp : p.Settled) {flags : Dict LanDescriptor Bool} (hset : u.reported p = .set flags)
    {P : Tracked Bool → Prop} : (∃ s ∈ (u.apply p).knownNetworks, P s.flag ∧ s.key = lan) ↔
      ∃ reachable, flags.get? lan = some reachable ∧ P (Tracked.set ⟨p.reaches lan, none⟩ reachable) := by
  have hflag : ∀ reachable, (((p.knownNetworks.find? fun s => s.key = lan).getD (.new lan)).setFlag reachable).flag =
      Tracked.set ⟨p.reaches lan, none⟩ reachable := by
    intro reachable
    rw [PeerStatus.flag_setFlag, (old_status hp).2]
  rw [knownNetworks_apply, hset]
  constructor
  · rintro ⟨s, hs, hP, hkey⟩
    obtain ⟨e, he, rfl⟩ := List.mem_map.mp hs
    rw [PeerStatus.setFlag_key.1, (old_status hp).1] at hkey
    rw [hkey, hflag] at hP
    exact ⟨e.2, Dict.get?_eq_some_iff.mpr (hkey ▸ he), hP⟩
  · rintro ⟨reachable, hget, hP⟩
    refine ⟨_, List.mem_map.mpr ⟨_, Dict.get?_eq_some_iff.mp hget, rfl⟩, ?_, ?_⟩
    · rwa [hflag]
    · rw [PeerStatus.setFlag_key.1, (old_status hp).1]

theorem apply_of_absent (habsent : u.reported p = .absent) : (u.apply p).knownNetworks = p.knownNetworks := by
  rw [knownNetworks_apply, habsent]
  rfl

theorem apply_of_reset (hreset : u.reported p = .reset) : (u.apply p).knownNetworks = [] := by
  rw [knownNetworks_apply, hreset]
  rfl

theorem reachable_apply_iff (hp : p.Settled) : (∃ s ∈ (u.apply p).knownNetworks, s.flag.value = true ∧ s.key = lan) ↔
    (u.reported p = .absent ∧ p.reaches lan = true) ∨
      ∃ flags, u.reported p = .set flags ∧ flags.get? lan = some true := by
  cases hreported : u.reported p with
  | absent =>
    rw [apply_of_absent hreported, ← reaches_iff hp]
    simp
  | reset =>
    rw [apply_of_reset hreported]
    simp
  | set flags =>
    refine (mem_apply_iff hp hreported (P := fun t => t.value = true)).trans ?_
    simp

theorem prev_apply_iff (hp : p.Settled) {b : Bool} :
    (∃ s ∈ (u.apply p).knownNetworks, s.flag.prev = some b ∧ s.key = lan) ↔
      ∃ flags, u.reported p = .set flags ∧ flags.get? lan = some (!b) ∧ p.reaches lan = b := by
  have hprev : ∀ reachable, (Tracked.set ⟨p.reaches lan, none⟩ reachable).prev = some b ↔
      reachable = (!b) ∧ p.reaches lan = b := by
    intro reachable
    unfold Tracked.set
    cases reachable <;> cases p.reaches lan <;> cases b <;> simp
  cases hreported : u.reported p with
  | absent =>
    rw [apply_of_absent hreported]
    refine iff_of_false ?_ (by simp)
    rintro ⟨s, hs, hsome, -⟩
    rw [hp.prev s hs] at hsome
    cases hsome
  | reset =>
    rw [apply_of_reset hreported]
    simp
  | set flags =>
    refine (mem_apply_iff hp hreported (P := fun t => t.prev = some b)).trans ?_
    simp only [hprev, Arg.set.injEq, exists_eq_left']
    constructor
    · rintro ⟨reachable, hget, rfl, hreaches⟩
      exact ⟨hget, hreaches⟩
    · rintro ⟨hget, hreaches⟩
      exact ⟨_, hget, rfl, hreaches⟩

end peer

/-! ### The statuses of all peers -/

section statuses
variable {l : UvnPeersList agent} {scope : ReachableScope} {u : Update} {p : UvnPeer} {lan : LanDescriptor}

theorem mem_lanStatuses (hp : p ∈ l.peers) {P : PeerStatus LanDescriptor → Bool} :
    (p.owner, lan) ∈ l.lanStatuses scope P ↔
      scope.includes agent p.owner = true ∧ ∃ s ∈ p.knownNetworks, P s = true ∧ s.key = lan := by
  unfold lanStatuses
  rw [List.mem_toFinset, List.mem_flatMap]
  constructor
  · rintro ⟨q, hq, hmem⟩
    obtain ⟨s, hs, heq⟩ := List.mem_map.mp hmem
    obtain ⟨howner, rfl⟩ := Prod.mk.inj heq
    obtain ⟨hq, hscope⟩ := List.mem_filter.mp hq
    obtain rfl := peer_unique hq hp howner
    obtain ⟨hs, hP⟩ := List.mem_filter.mp hs
    exact ⟨hscope, s, hs, hP, rfl⟩
  · rintro ⟨hscope, s, hs, hP, rfl⟩
    exact ⟨p, List.mem_filter.mpr ⟨hp, hscope⟩, List.mem_map.mpr ⟨s, List.mem_filter.mpr ⟨hs, hP⟩, rfl⟩⟩

theorem exists_peer_of_mem {P : PeerStatus LanDescriptor → Bool} {x : PeerOwner × LanDescriptor}
    (hx : x ∈ l.lanStatuses scope P) : ∃ p ∈ l.peers, x = (p.owner, x.2) := by
  unfold lanStatuses at hx
  rw [List.mem_toFinset, List.mem_flatMap] at hx
  obtain ⟨p, hp, hmem⟩ := hx
  obtain ⟨s, -, rfl⟩ := List.mem_map.mp hmem
  exact ⟨p, (List.mem_filter.mp hp).1, rfl⟩

theorem mem_lanStatuses_configured (hp : p ∈ l.peers) {P : PeerStatus LanDescriptor → Bool} :
    (p.owner, lan) ∈ (l.configured u).lanStatuses scope P ↔
      scope.includes agent p.owner = true ∧ ∃ s ∈ (u.apply p).knownNetworks, P s = true ∧ s.key = lan := by
  rw [← u.owner_apply p]
  exact mem_lanStatuses (mem_configured hp)

theorem lanStatuses_ext {S T : Finset (PeerOwner × LanDescriptor)}
    (hS : ∀ x ∈ S, ∃ p ∈ l.peers, x = (p.owner, x.2)) (hT : ∀ x ∈ T, ∃ p ∈ l.peers, x = (p.owner, x.2)) :
    S = T ↔ ∀ p ∈ l.peers, ∀ lan, (p.owner, lan) ∈ S ↔ (p.owner, lan) ∈ T := by
  constructor
  · rintro rfl p _ lan
    exact Iff.rfl
  · intro h
    ext x
    constructor
    · intro hx
      obtain ⟨p, hp, heq⟩ := hS x hx
      rw [heq] at hx ⊢
      exact (h p hp x.2).mp hx
    · intro hx
      obtain ⟨p, hp, heq⟩ := hT x hx
      rw [heq] at hx ⊢
      exact (h p hp x.2).mpr hx

/-- All peers are settled. -/
def Settled (l : UvnPeersList agent) : Prop := ∀ p ∈ l.peers, p.Settled

/-- The sets of which an event consists, peer by peer. -/
structure PeerSets (l : UvnPeersList agent) (u : Update) (scope : ReachableScope) (p : UvnPeer) (lan : LanDescriptor) : Prop
    where
  before : (p.owner, lan) ∈ l.reachableNetworks scope ↔
    scope.includes agent p.owner = true ∧ p.reaches lan = true
  after : (p.owner, lan) ∈ (l.configured u).reachableNetworks scope ↔ scope.includes agent p.owner = true ∧
    ((u.reported p = .absent ∧ p.reaches lan = true) ∨ ∃ flags, u.reported p = .set flags ∧ flags.get? lan = some true)
  prev : (p.owner, lan) ∈ (l.configured u).prevReachable scope ↔ scope.includes agent p.owner = true ∧
    ∃ flags, u.reported p = .set flags ∧ flags.get? lan = some false ∧ p.reaches lan = true
  changed : (p.owner, lan) ∈ (l.configured u).changedReachable scope ↔ scope.includes agent p.owner = true ∧
    ∃ flags reachable, u.reported p = .set flags ∧ flags.get? lan = some reachable ∧ p.reaches lan ≠ reachable

theorem Settled.peerSets (hl : l.Settled) (hp : p ∈ l.peers) : PeerSets l u scope p lan := by
  refine ⟨?_, ?_, ?_, ?_⟩
  · rw [reachableNetworks, mem_lanStatuses hp, reaches_iff (hl p hp)]
  · rw [reachableNetworks, mem_lanStatuses_configured hp, reachable_apply_iff (hl p hp)]
  · rw [prevReachable, mem_lanStatuses_configured hp]
    simp only [decide_eq_true_eq]
    rw [prev_apply_iff (hl p hp)]
    rfl
  · have hsome : (∃ s ∈ (u.apply p).knownNetworks, s.flag.prev.isSome = true ∧ s.key = lan) ↔
        ∃ b, ∃ s ∈ (u.apply p).knownNetworks, s.flag.prev = some b ∧ s.key = lan := by
      simp only [Option.isSome_iff_exists]
      constructor
      · rintro ⟨s, hs, ⟨b, hb⟩, hkey⟩
        exact ⟨b, s, hs, hb, hkey⟩
      · rintro ⟨b, s, hs, hb, hkey⟩
        exact ⟨s, hs, ⟨b, hb⟩, hkey⟩
    rw [changedReachable, mem_lanStatuses_configured hp, hsome]
    simp only [prev_apply_iff (hl p hp)]
    refine and_congr_right fun _ => ?_
    constructor
    · rintro ⟨b, flags, hset, hget, hreaches⟩
      exact ⟨flags, !b, hset, hget, by cases b <;> simp [hreaches]⟩
    · rintro ⟨flags, reachable, hset, hget, hne⟩
      refine ⟨!reachable, flags, hset, by simpa using hget, ?_⟩
      revert hne
      cases reachable <;> cases p.reaches lan <;> simp

theorem Settled.sets (hl : l.Settled) :
    (l.configured u).prevReachable scope ⊆ l.reachableNetworks scope \ (l.configured u).reachableNetworks scope ∧
    (l.configured u).changedReachable scope = ((l.configured u).reachableNetworks scope \ l.reachableNetworks scope) ∪
      (l.configured u).prevReachable scope := by
  have hpeer : ∀ {P : PeerStatus LanDescriptor → Bool} x, x ∈ (l.configured u).lanStatuses scope P →
      ∃ p ∈ l.peers, x = (p.owner, x.2) := by
    intro P x hx
    obtain ⟨q, hq, heq⟩ := exists_peer_of_mem hx
    obtain ⟨p, hp, rfl⟩ := List.mem_map.mp hq
    exact ⟨p, hp, by rwa [u.owner_apply] at heq⟩
  constructor
  · intro x hx
    obtain ⟨p, hp, heq⟩ := hpeer x hx
    rw [heq] at hx ⊢
    have hsets := @Settled.peerSets agent l scope u p x.2 hl hp
    obtain ⟨hscope, flags, hset, hget, hreaches⟩ := hsets.prev.mp hx
    rw [Finset.mem_sdiff, hsets.before, hsets.after]
    refine ⟨⟨hscope, hreaches⟩, ?_⟩
    simp [hset, hget]
  · refine (lanStatuses_ext (l := l) hpeer fun x hx => ?_).mpr fun p hp lan => ?_
    · rcases Finset.mem_union.mp hx with hx | hx
      · exact hpeer x (Finset.mem_sdiff.mp hx).1
      · exact hpeer x hx
    · have hsets := @Settled.peerSets agent l scope u p lan hl hp
      refine hsets.changed.trans ?_
      rw [Finset.mem_union, Finset.mem_sdiff, hsets.before, hsets.after, hsets.prev]
      by_cases hscope : scope.includes agent p.owner = true
      · cases hreported : u.reported p with
        | absent => simp
        | reset => simp
        | set flags =>
          simp only [hscope, Arg.set.injEq, exists_eq_left', reduceCtorEq, false_and, false_or, true_and]
          rcases hget : flags.get? lan with _ | reachable
          · simp [hget]
          · cases reachable <;> cases p.reaches lan <;> simp [hget]
      · simp [hscope]

theorem Settled.condition (hl : l.Settled) :
    (u.Forgets l scope ↔ ∃ x ∈ l.reachableNetworks scope, x ∉ (l.configured u).reachableNetworks scope ∧
      x ∉ (l.configured u).prevReachable scope) ∧
    (u.Flips l scope ↔ ∃ x, x ∈ (l.configured u).changedReachable scope) ∧
    (u.Keeps l scope ↔ ∃ x ∈ l.reachableNetworks scope, x ∈ (l.configured u).reachableNetworks scope) := by
  have hsets := fun p hp lan => @Settled.peerSets agent l scope u p lan hl hp
  have hbefore : ∀ {R : PeerOwner × LanDescriptor → Prop}, (∃ x ∈ l.reachableNetworks scope, R x) ↔
      ∃ p ∈ l.peers, scope.includes agent p.owner = true ∧ ∃ lan, p.reaches lan = true ∧ R (p.owner, lan) := by
    intro R
    constructor
    · rintro ⟨x, hx, hR⟩
      obtain ⟨p, hp, heq⟩ := exists_peer_of_mem hx
      rw [heq] at hx hR
      obtain ⟨hscope, hreaches⟩ := (hsets p hp x.2).before.mp hx
      exact ⟨p, hp, hscope, x.2, hreaches, hR⟩
    · rintro ⟨p, hp, hscope, lan, hreaches, hR⟩
      exact ⟨_, (hsets p hp lan).before.mpr ⟨hscope, hreaches⟩, hR⟩
  refine ⟨?_, ?_, ?_⟩
  · rw [hbefore]
    refine exists_congr fun p => and_congr_right fun hp => and_congr_right fun hscope =>
      exists_congr fun lan => and_congr_right fun hreaches => ?_
    rw [(hsets p hp lan).after, (hsets p hp lan).prev]
    cases u.reported p with
    | absent => simp [hscope, hreaches]
    | reset => simp
    | set flags =>
      simp only [hscope, hreaches, Arg.set.injEq, exists_eq_left', reduceCtorEq, false_or, true_and, and_true]
      rcases flags.get? lan with _ | reachable
      · simp
      · cases reachable <;> simp
  · constructor
    · rintro ⟨p, hp, hscope, flags, lan, reachable, hset, hget, hne⟩
      exact ⟨_, (hsets p hp lan).changed.mpr ⟨hscope, flags, reachable, hset, hget, hne⟩⟩
    · rintro ⟨x, hx⟩
      obtain ⟨q, hq, heq⟩ := exists_peer_of_mem hx
      obtain ⟨p, hp, rfl⟩ := List.mem_map.mp hq
      rw [u.owner_apply] at heq
      rw [heq] at hx
      obtain ⟨hscope, flags, reachable, hset, hget, hne⟩ := (hsets p hp x.2).changed.mp hx
      exact ⟨p, hp, hscope, flags, x.2, reachable, hset, hget, hne⟩
  · rw [hbefore]
    refine exists_congr fun p => and_congr_right fun hp => and_congr_right fun hscope =>
      exists_congr fun lan => and_congr_right fun hreaches => ?_
    rw [(hsets p hp lan).after]
    simp [hscope, hreaches]

end statuses

/-! ### Runs -/

section runs
variable {l l' : UvnPeersList agent} {u : Update}

theorem settled_save {p : UvnPeer} (hnodup : (p.knownNetworks.map PeerStatus.key).Nodup) : p.save.Settled := by
  unfold UvnPeer.save
  split_ifs with hdirty
  · refine ⟨?_, fun s hs => ?_⟩
    · show ((p.knownNetworks.map PeerStatus.save).map PeerStatus.key).Nodup
      rw [List.map_map]
      exact hnodup
    · obtain ⟨t, -, rfl⟩ := List.mem_map.mp hs
      rfl
  · refine ⟨hnodup, fun s hs => s.prev_eq_none ?_⟩
    simp only [UvnPeer.dirty, Bool.or_eq_true, List.any_eq_true, not_or, not_exists, not_and] at hdirty
    simpa using hdirty.2 s hs

theorem nodup_configureAll {statuses : List (PeerStatus LanDescriptor)} (flags : Dict LanDescriptor Bool) :
    ((PeerStatus.configureAll statuses flags).map PeerStatus.key).Nodup := by
  have hkeys := congrArg (List.map Prod.fst) (@PeerStatus.map_configureAll _ _ statuses flags)
  rw [List.map_map] at hkeys
  have hfst : (PeerStatus.configureAll statuses flags).map PeerStatus.key = flags.keys := hkeys
  rw [hfst]
  exact flags.keys_nodup

theorem nodup_apply {p : UvnPeer} (hp : p.Settled) : ((u.apply p).knownNetworks.map PeerStatus.key).Nodup := by
  cases hreported : u.reported p with
  | absent =>
    rw [apply_of_absent hreported]
    exact hp.nodup
  | reset =>
    rw [apply_of_reset hreported]
    exact List.nodup_nil
  | set flags =>
    rw [knownNetworks_apply, hreported]
    exact nodup_configureAll flags

theorem Settled.updateAll (hl : l.Settled) : (l.updateAll u).Settled := by
  unfold UvnPeersList.updateAll processUpdates
  split_ifs with hdirty
  · intro q hq
    obtain ⟨q', hq', rfl⟩ := List.mem_map.mp hq
    obtain ⟨p, hp, rfl⟩ := List.mem_map.mp hq'
    exact settled_save (nodup_apply (hl p hp))
  · intro q hq
    obtain ⟨p, hp, rfl⟩ := List.mem_map.mp hq
    refine ⟨nodup_apply (hl p hp), fun s hs => s.prev_eq_none ?_⟩
    simp only [UvnPeersList.dirty, Bool.or_eq_true, List.any_eq_true, not_or, not_exists, not_and] at hdirty
    have hquiet := hdirty.2 _ hq
    simp only [UvnPeer.dirty, Bool.or_eq_true, List.any_eq_true, not_or, not_exists, not_and] at hquiet
    simpa using hquiet.2 s hs

theorem settled_of_reaches (rows : PeerOwner → Option PeerRow) {ok : UvnPeersList agent → PeersEvent → Prop}
    (hrun : Run.Reaches step ok (load agent rows) l) : l.Settled := by
  refine hrun.invariant ?_ fun l e l' hl _ hstep => ?_
  · intro p hp
    obtain ⟨owner, -, rfl⟩ := List.mem_map.mp hp
    have hempty : ∀ p : UvnPeer, p.knownNetworks = [] → p.Settled := by
      intro p hnil
      exact ⟨hnil ▸ List.nodup_nil, fun s hs => by rw [hnil] at hs; cases hs⟩
    split <;> exact hempty _ rfl
  · unfold UvnPeersList.step at hstep
    split at hstep
    · cases hstep
      exact hl
    · cases hstep
      exact hl.updateAll

theorem reachableNetworks_updateAll (scope : ReachableScope) :
    (l.updateAll u).reachableNetworks scope = (l.configured u).reachableNetworks scope := by
  have hpairs : ∀ (owner : PeerOwner) (statuses : List (PeerStatus LanDescriptor)),
      (statuses.filter fun s => s.flag.value).map (fun s => (owner, s.key)) =
        ((statuses.map fun s => (s.key, s.flag.value)).filter fun e => e.2).map fun e => (owner, e.1) := by
    intro owner statuses
    rw [List.filter_map, List.map_map]
    rfl
  have hsave : (l.configured u).save.reachableNetworks scope = (l.configured u).reachableNetworks scope := by
    unfold reachableNetworks lanStatuses
    have hfilter : (fun p : UvnPeer => scope.includes agent p.owner) ∘ UvnPeer.save =
        fun p => scope.includes agent p.owner := by
      funext p
      exact congrArg (fun owner => scope.includes agent owner) (UvnPeer.owner_save p)
    show (((l.configured u).peers.map UvnPeer.save).filter _ |>.flatMap _).toFinset = _
    rw [List.filter_map, hfilter, List.flatMap_map]
    congr 2
    funext p
    rw [hpairs, hpairs, UvnPeer.owner_save, (values_save p).2.2.2]
  unfold updateAll processUpdates
  split_ifs
  · exact hsave
  · rfl

theorem localOnline_updateAll : (l.updateAll u).localOnline = (l.configured u).localOnline := by
  have hsave : (l.configured u).save.localOnline = (l.configured u).localOnline := by
    unfold localOnline localPeer
    have hfind : (fun p : UvnPeer => decide (p.owner = agent.owner)) ∘ UvnPeer.save =
        fun p => decide (p.owner = agent.owner) := by
      funext p
      simp [UvnPeer.owner_save]
    show (((l.configured u).peers.map UvnPeer.save).find? _).any _ = _
    rw [List.find?_map, hfind, Option.any_map]
    congr 1
    funext p
    simp [(values_save p).1]
  unfold updateAll processUpdates
  split_ifs
  · exact hsave
  · rfl

theorem dirty_of_changed {scope : ReachableScope} (h : l.changedReachable scope ≠ ∅) : l.dirty = true := by
  obtain ⟨x, hx⟩ := Finset.nonempty_iff_ne_empty.mpr h
  obtain ⟨p, hp, heq⟩ := exists_peer_of_mem hx
  rw [heq, changedReachable, mem_lanStatuses hp] at hx
  obtain ⟨-, s, hs, hprev, -⟩ := hx
  have hunsaved : s.saved = false := by
    refine Bool.eq_false_iff.mpr fun hsaved => ?_
    rw [s.prev_eq_none hsaved] at hprev
    cases hprev
  have hpeer : p.dirty = true := by
    unfold UvnPeer.dirty
    rw [List.any_eq_true.mpr ⟨s, hs, by rw [hunsaved]; rfl⟩, Bool.or_true]
  unfold dirty
  rw [List.any_eq_true.mpr ⟨p, hp, hpeer⟩, Bool.or_true]

/-- A difference that is reconstructed from the networks `C` that changed and those `P` of them that were reachable is
exact if and only if no network is forgotten and, once something changed, none is kept. -/
theorem exactDifference_iff {A B C P : Finset (PeerOwner × LanDescriptor)} (hP : P ⊆ B \ A) (hC : C = (A \ B) ∪ P) :
    ExactDifference B A (if C = ∅ then none else some ⟨A \ P, P \ A⟩) ↔
      (¬ ∃ x ∈ B, x ∉ A ∧ x ∉ P) ∧ ((∃ x, x ∈ C) → ¬ ∃ x ∈ B, x ∈ A) := by
  have hPA : ∀ x ∈ P, x ∈ B ∧ x ∉ A := fun x hx => Finset.mem_sdiff.mp (hP hx)
  by_cases hempty : C = ∅
  · rw [if_pos hempty]
    have hnone := Finset.union_eq_empty.mp (hC.symm.trans hempty)
    have hquiet : ¬ ∃ x, x ∈ C := by
      rintro ⟨x, hx⟩
      rw [hempty] at hx
      exact Finset.notMem_empty x hx
    simp only [ExactDifference, hnone.1, hnone.2, true_and, Finset.notMem_empty, not_false_iff, and_true, hquiet,
      false_imp_iff]
    rw [Finset.eq_empty_iff_forall_notMem]
    simp only [Finset.mem_sdiff, not_exists, not_and]
  · obtain ⟨y, hy⟩ := Finset.nonempty_iff_ne_empty.mpr hempty
    have hsome : ∃ x, x ∈ C := ⟨y, hy⟩
    rw [if_neg hempty]
    simp only [ExactDifference, hsome, true_imp_iff, Finset.ext_iff, Finset.mem_sdiff]
    constructor
    · rintro ⟨hnew, hgone⟩
      refine ⟨?_, ?_⟩
      · rintro ⟨x, hB, hA, hnot⟩
        exact hnot ((hgone x).mpr ⟨hB, hA⟩).1
      · rintro ⟨x, hB, hA⟩
        exact ((hnew x).mp ⟨hA, fun hx => (hPA x hx).2 hA⟩).2 hB
    · rintro ⟨hforgets, hkeeps⟩
      refine ⟨fun x => ⟨fun hx => ⟨hx.1, fun hB => hkeeps ⟨x, hB, hx.1⟩⟩, fun hx => ⟨hx.1, fun h => hx.2 (hPA x h).1⟩⟩,
        fun x => ⟨fun hx => hPA x hx.1, fun hx => ⟨?_, hx.2⟩⟩⟩
      by_contra hnot
      exact hforgets ⟨x, hx.1, hx.2, hnot⟩

/-- In every run, whatever the peers an agent finds: the event about the reachable networks of its own peer, or of all
others, after an update that leaves its own peer online is the exact difference if and only if the update forgets no
reachable network and, if it changes the reachability of some network, keeps none reachable. -/
theorem reachable_events_iff (rows : PeerOwner → Option PeerRow)
    (hrun : Run.Reaches step (fun _ _ => True) (load agent rows) l) (u : Update)
    (honline : (l.updateAll u).localOnline = true) (scope : ReachableScope) :
    ExactDifference (l.reachableNetworks scope) ((l.updateAll u).reachableNetworks scope)
      ((l.configured u).reachableEvent scope) ↔
      ¬ u.Forgets l scope ∧ (u.Flips l scope → ¬ u.Keeps l scope) := by
  have hl := settled_of_reaches rows hrun
  obtain ⟨hprev, hchanged⟩ := @Settled.sets agent l scope u hl
  obtain ⟨hforgets, hflips, hkeeps⟩ := @Settled.condition agent l scope u hl
  rw [hforgets, hflips, hkeeps, ← exactDifference_iff hprev hchanged, reachableNetworks_updateAll]
  rw [localOnline_updateAll] at honline
  refine iff_of_eq (congrArg _ ?_)
  unfold reachableEvent
  by_cases hempty : (l.configured u).changedReachable scope = ∅
  · rw [if_pos (.inr hempty), if_pos hempty]
  · have hdirty := dirty_of_changed hempty
    have hboth : ¬ (scope = .others ∧ (l.configured u).prevReachable scope \ (l.configured u).reachableNetworks scope = ∅ ∧
        (l.configured u).reachableNetworks scope \ (l.configured u).prevReachable scope = ∅) := by
      rintro ⟨-, hgone, hnew⟩
      obtain ⟨x, hx⟩ := Finset.nonempty_iff_ne_empty.mpr hempty
      rw [hchanged] at hx
      rw [Finset.sdiff_eq_empty_iff_subset] at hgone hnew
      rcases Finset.mem_union.mp hx with hx | hx
      · exact (Finset.mem_sdiff.mp hx).2 (Finset.mem_sdiff.mp (hprev (hnew (Finset.mem_sdiff.mp hx).1))).1
      · exact (Finset.mem_sdiff.mp (hprev hx)).2 (hgone hx)
    rw [if_neg (by simp [hdirty, hempty]), if_neg hempty]
    dsimp only
    rw [if_neg hboth, if_pos honline]

end runs

/-- The LAN `10.0.i.0/24`. -/
def testedLan (i : Fin 256) : LanDescriptor where
  nic := ⟨"eth0", ⟨10 * 2 ^ 24 + i * 2 ^ 8 + 1, by omega⟩,
    ⟨⟨10 * 2 ^ 24 + i * 2 ^ 8, by omega⟩, 24, IPv4Network.le_24, by simp only; omega⟩⟩
  gw := ⟨10 * 2 ^ 24 + i * 2 ^ 8 + 254, by omega⟩

/-- The agent tested its networks: those of the list are reachable. -/
def tested (lans : List LanDescriptor) : Update :=
  ⟨some [lonelyAgent.owner], { knownNetworks := .set (lans.foldl (fun d lan => d.set lan true) ∅) }⟩

/-- The agent goes online and finds one network reachable. -/
theorem reachable_events_first : ∃ l, (load lonelyAgent fun _ => none).step (.online {}) = .ok l ∧
    ExactDifference (l.reachableNetworks .own) ((l.updateAll (tested [testedLan 0])).reachableNetworks .own)
      ((l.configured (tested [testedLan 0])).reachableEvent .own) := by
  refine ⟨_, rfl, (reachable_events_iff (fun _ => none) (.step (.online {}) .refl trivial rfl) _ (by decide) _).mpr ?_⟩
  have hnone : ∀ p ∈ ((load lonelyAgent fun _ => none).updateAll
      ⟨some [lonelyAgent.owner], { status := .set .online }⟩).peers, ∀ lan, ¬ p.reaches lan = true := by
    intro p hp lan
    have hempty : ∀ p ∈ ((load lonelyAgent fun _ => none).updateAll
        ⟨some [lonelyAgent.owner], { status := .set .online }⟩).peers, p.knownNetworks.isEmpty = true := by decide
    rw [UvnPeer.reaches, List.isEmpty_iff.mp (hempty p hp)]
    exact Bool.false_ne_true
  refine ⟨?_, fun _ => ?_⟩
  · rintro ⟨p, hp, -, lan, hreaches, -⟩
    exact hnone p hp lan hreaches
  · rintro ⟨p, hp, -, lan, hreaches, -⟩
    exact hnone p hp lan hreaches

/-- A network that was reachable before is new when another one becomes reachable. -/
theorem reachable_events_inexact : ∃ l, Run.Reaches step (fun _ _ => True) (load lonelyAgent fun _ => none) l ∧
    (l.updateAll (tested [testedLan 0, testedLan 1])).localOnline = true ∧
    ¬ ExactDifference (l.reachableNetworks .own) ((l.updateAll (tested [testedLan 0, testedLan 1])).reachableNetworks .own)
      ((l.configured (tested [testedLan 0, testedLan 1])).reachableEvent .own) := by
  refine ⟨_, .step (.updateAll (tested [testedLan 0])) (.step (.online {}) .refl trivial rfl) trivial rfl, ?_, ?_⟩
  · decide
  · decide

end UvnPeersList

end Uno
