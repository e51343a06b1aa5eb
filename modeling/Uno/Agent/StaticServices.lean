import Uno.Core.Exn
import Mathlib.Data.Finset.Basic
import Mathlib.Data.Finset.Lattice.Lemmas
import Mathlib.Data.Finset.SDiff
import Mathlib.Data.List.TakeWhile

/-!
# Starting static services

`Agent.start_static_services` starts the services of a list in order, up to a target, and stops those it went through
when one raises. It does nothing when a service from the target on is active. `start_static_services_iff` says exactly
when this is all or nothing: what the loop stops again includes the services that were active before the call, and what
it skips may include some that are not.
-/

namespace Uno

/-- What starting an inactive service does. A service that is not runnable, or the agent itself, which is a separate
process, is not active when its start returns. -/
inductive StartOutcome where
  | started
  | ignored
  | failed (e : Exn)

namespace StartOutcome

def starts : StartOutcome → Bool
  | .started => true
  | _ => false

def fails : StartOutcome → Bool
  | .failed _ => true
  | _ => false

end StartOutcome

/-- The static services of an agent, by name, in the order in which they depend on each other. -/
structure StaticServices (Service : Type) where
  services : List Service
  nodup : services.Nodup

namespace StaticServices

variable {Service : Type} [DecidableEq Service]

/-! ### The loop -/

/-- `AgentStaticService.up`. -/
def up (outcome : Service → StartOutcome) (active : Finset Service) (svc : Service) : Result (Finset Service) :=
  if svc ∈ active then .ok active
  else match outcome svc with
    | .started => .ok (insert svc active)
    | .ignored => .ok active
    | .failed e => .error e

/-- `AgentStaticService.down`, which removes the marker of the service. -/
def down (active : Finset Service) (svc : Service) : Finset Service := active.erase svc

/-- The loop over the services that are left, after those in `started`. The active services are known also when the
loop raises. -/
def startLoop (outcome : Service → StartOutcome) (tgtSvc : Service) :
    List Service → List Service → Finset Service → Result Unit × Finset Service
  | [], _, active => (.ok (), active)
  | svc :: rest, started, active =>
    match up outcome active svc with
    | .error e => (.error e, started.foldl down active)
    | .ok active => if svc = tgtSvc then (.ok (), active) else startLoop outcome tgtSvc rest (svc :: started) active

/-- `start_static_services`; by default the target is the router. -/
def startStaticServices (s : StaticServices Service) (router : Service) (outcome : Service → StartOutcome)
    (active : Finset Service) (upTo : Option Service) : Result Unit × Finset Service :=
  let upTo := upTo.getD router
  if upTo ∉ s.services then (.error (.value "unknown target service"), active)
  else
    match (s.services.filter (· ∈ active)).getLast? with
    | none => startLoop outcome upTo s.services [] active
    | some highestRunning =>
      if s.services.idxOf highestRunning ≥ s.services.idxOf upTo then (.ok (), active)
      else startLoop outcome upTo s.services [] active

/-! ### All or nothing -/

/-- The services of a list up to and including the target. -/
def upTo (tgtSvc : Service) : List Service → List Service
  | [] => []
  | svc :: rest => if svc = tgtSvc then [svc] else svc :: upTo tgtSvc rest

/-- A call leaves things as they were, or starts what it was asked to and nothing beyond. -/
structure AllOrNothing (s : StaticServices Service) (tgtSvc : Service) (active : Finset Service)
    (result : Result Unit × Finset Service) : Prop where
  raised : ∀ e, result.1 = .error e → result.2 = active
  upTo : result.1 = .ok () → ∀ svc ∈ upTo tgtSvc s.services, svc ∈ result.2
  beyond : result.1 = .ok () → ∀ svc ∈ result.2, svc ∉ active → svc ∈ StaticServices.upTo tgtSvc s.services

/-- A service that is not active and fails to start. -/
def Fails (outcome : Service → StartOutcome) (active : Finset Service) (svc : Service) : Prop :=
  svc ∉ active ∧ (outcome svc).fails = true

instance (outcome : Service → StartOutcome) (active : Finset Service) : DecidablePred (Fails outcome active) :=
  fun _ => inferInstanceAs (Decidable (_ ∧ _))

/-- The services before the first that fails. -/
def beforeFailure (outcome : Service → StartOutcome) (active : Finset Service) (l : List Service) : List Service :=
  l.takeWhile fun svc => ¬ Fails outcome active svc

/-- The condition under which a call for a known target is all or nothing. -/
structure Sound (s : StaticServices Service) (tgtSvc : Service) (outcome : Service → StartOutcome)
    (active : Finset Service) : Prop where
  /-- If a service from the target on is active, all up to the target are. -/
  above : ∀ svc ∈ s.services, svc ∈ active → s.services.idxOf tgtSvc ≤ s.services.idxOf svc →
    ∀ svc' ∈ upTo tgtSvc s.services, svc' ∈ active
  /-- Otherwise no service before the first that fails is active already. -/
  failing : (∀ svc ∈ s.services, svc ∈ active → s.services.idxOf svc < s.services.idxOf tgtSvc) →
    (∃ svc ∈ upTo tgtSvc s.services, Fails outcome active svc) →
    ∀ svc ∈ beforeFailure outcome active (upTo tgtSvc s.services), svc ∉ active
  /-- And if none fails, all that are not active are started. -/
  starting : (∀ svc ∈ s.services, svc ∈ active → s.services.idxOf svc < s.services.idxOf tgtSvc) →
    (∀ svc ∈ upTo tgtSvc s.services, ¬ Fails outcome active svc) →
    ∀ svc ∈ upTo tgtSvc s.services, svc ∉ active → (outcome svc).starts = true

section loop
variable {outcome : Service → StartOutcome} {tgtSvc : Service} {active : Finset Service}

theorem foldl_down (started : List Service) (active : Finset Service) :
    started.foldl down active = active \ started.toFinset := by
  induction started generalizing active with
  | nil => simp
  | cons svc rest ih =>
    rw [List.foldl_cons, ih, down, List.toFinset_cons, Finset.sdiff_insert, Finset.erase_sdiff_comm]

theorem fails_insert {svc svc' : Service} (hne : svc' ≠ svc) :
    Fails outcome (insert svc active) svc' ↔ Fails outcome active svc' := by
  unfold Fails
  rw [Finset.mem_insert, not_or, and_iff_right hne]

theorem up_of_not_fails {svc : Service} (h : ¬ Fails outcome active svc) :
    up outcome active svc = .ok (if (outcome svc).starts then insert svc active else active) := by
  unfold up
  by_cases hmem : svc ∈ active
  · rw [if_pos hmem, Finset.insert_eq_of_mem hmem, ite_self]
  · rw [if_neg hmem]
    cases hout : outcome svc with
    | started => rfl
    | ignored => rfl
    | failed e => exact absurd ⟨hmem, by rw [hout]; rfl⟩ h

theorem up_of_fails {svc : Service} (h : Fails outcome active svc) : ∃ e, up outcome active svc = .error e := by
  obtain ⟨hmem, hout⟩ := h
  unfold up
  rw [if_neg hmem]
  cases hsvc : outcome svc with
  | started => rw [hsvc] at hout; cases hout
  | ignored => rw [hsvc] at hout; cases hout
  | failed e => exact ⟨e, rfl⟩

theorem upTo_subset {svc : Service} {l : List Service} (h : svc ∈ upTo tgtSvc l) : svc ∈ l := by
  induction l with
  | nil => exact h
  | cons head rest ih =>
    rw [upTo] at h
    split_ifs at h with htgt
    · exact List.mem_cons.mpr (.inl (List.mem_singleton.mp h))
    · rcases List.mem_cons.mp h with rfl | hrest
      · exact List.mem_cons_self
      · exact List.mem_cons_of_mem _ (ih hrest)

/-- The services that were already started do not matter for those that are left. -/
theorem fails_rest {svc svc' : Service} {rest : List Service} (hnodup : (svc :: rest).Nodup) (hmem : svc' ∈ rest) :
    Fails outcome (if (outcome svc).starts then insert svc active else active) svc' ↔ Fails outcome active svc' := by
  split_ifs
  · exact fails_insert fun heq => (List.nodup_cons.mp hnodup).1 (heq ▸ hmem)
  · exact Iff.rfl

/-- The services of a list whose start activates them. -/
def startedIn (outcome : Service → StartOutcome) (l : List Service) : Finset Service :=
  (l.filter fun svc => (outcome svc).starts).toFinset

theorem union_startedIn_cons {svc : Service} {l : List Service} :
    active ∪ startedIn outcome (svc :: l) =
      (if (outcome svc).starts then insert svc active else active) ∪ startedIn outcome l := by
  unfold startedIn
  rw [List.filter_cons]
  split_ifs
  · rw [List.toFinset_cons, Finset.insert_union, Finset.union_insert]
  · rfl

theorem startLoop_ok {l : List Service} (hnodup : l.Nodup) (started : List Service)
    (h : ∀ svc ∈ upTo tgtSvc l, ¬ Fails outcome active svc) :
    startLoop outcome tgtSvc l started active =
      (.ok (), active ∪ startedIn outcome (upTo tgtSvc l)) := by
  induction l generalizing started active with
  | nil => simp [startLoop, upTo, startedIn]
  | cons svc rest ih =>
    rw [upTo] at h ⊢
    by_cases htgt : svc = tgtSvc
    · rw [if_pos htgt] at h ⊢
      rw [startLoop, up_of_not_fails (h svc (List.mem_singleton_self svc))]
      simp only [if_pos htgt]
      rw [union_startedIn_cons]
      simp [startedIn]
    · rw [if_neg htgt] at h ⊢
      rw [startLoop, up_of_not_fails (h svc List.mem_cons_self)]
      simp only [if_neg htgt]
      rw [ih (List.nodup_cons.mp hnodup).2]
      · rw [union_startedIn_cons]
      · intro svc' hsvc' hfails
        exact h svc' (List.mem_cons_of_mem _ hsvc') ((fails_rest hnodup (upTo_subset hsvc')).mp hfails)

theorem beforeFailure_congr {active' : Finset Service} {l : List Service}
    (h : ∀ svc ∈ l, (Fails outcome active' svc ↔ Fails outcome active svc)) :
    beforeFailure outcome active' l = beforeFailure outcome active l := by
  induction l with
  | nil => rfl
  | cons svc rest ih =>
    have hrest := ih fun svc' hsvc' => h svc' (List.mem_cons_of_mem _ hsvc')
    have hsvc := h svc List.mem_cons_self
    unfold beforeFailure at hrest ⊢
    rw [List.takeWhile_cons, List.takeWhile_cons, decide_eq_decide.mpr (not_congr hsvc), hrest]

theorem startLoop_error {l : List Service} (hnodup : l.Nodup) (started : List Service)
    (h : ∃ svc ∈ upTo tgtSvc l, Fails outcome active svc) :
    ∃ e, startLoop outcome tgtSvc l started active =
      (.error e, active \ ((beforeFailure outcome active (upTo tgtSvc l)).toFinset ∪ started.toFinset)) := by
  induction l generalizing started active with
  | nil =>
    obtain ⟨svc, hsvc, -⟩ := h
    cases hsvc
  | cons svc rest ih =>
    by_cases hfails : Fails outcome active svc
    · obtain ⟨e, he⟩ := up_of_fails hfails
      have hbefore : beforeFailure outcome active (upTo tgtSvc (svc :: rest)) = [] := by
        rw [upTo]
        split_ifs <;> simp [beforeFailure, hfails]
      refine ⟨e, ?_⟩
      rw [startLoop, he, hbefore, List.toFinset_nil, Finset.empty_union, ← foldl_down]
    · rw [upTo] at h ⊢
      by_cases htgt : svc = tgtSvc
      · rw [if_pos htgt] at h
        obtain ⟨svc', hsvc', hfails'⟩ := h
        rw [List.mem_singleton.mp hsvc'] at hfails'
        exact absurd hfails' hfails
      · rw [if_neg htgt] at h ⊢
        have hrest : ∀ svc' ∈ upTo tgtSvc rest,
            (Fails outcome (if (outcome svc).starts then insert svc active else active) svc' ↔
              Fails outcome active svc') := fun svc' hsvc' => fails_rest hnodup (upTo_subset hsvc')
        obtain ⟨svc', hsvc', hfails'⟩ := h
        have hsvc' : svc' ∈ upTo tgtSvc rest := by
          rcases List.mem_cons.mp hsvc' with rfl | hmem
          · exact absurd hfails' hfails
          · exact hmem
        obtain ⟨e, he⟩ := ih (List.nodup_cons.mp hnodup).2 (svc :: started) ⟨svc', hsvc', (hrest svc' hsvc').mpr hfails'⟩
        refine ⟨e, ?_⟩
        rw [startLoop, up_of_not_fails hfails]
        simp only [if_neg htgt]
        have hbefore : beforeFailure outcome active (svc :: upTo tgtSvc rest) =
            svc :: beforeFailure outcome (if (outcome svc).starts then insert svc active else active)
              (upTo tgtSvc rest) := by
          rw [beforeFailure, List.takeWhile_cons_of_pos (by simpa using hfails)]
          exact congrArg _ (beforeFailure_congr hrest).symm
        rw [he, hbefore, List.toFinset_cons, List.toFinset_cons]
        congr 1
        ext x
        split_ifs <;> simp only [Finset.mem_sdiff, Finset.mem_union, Finset.mem_insert] <;> tauto

end loop

/-! ### Calls -/

section call
variable {s : StaticServices Service} {router tgtSvc : Service} {outcome : Service → StartOutcome}
  {active : Finset Service} {target : Option Service}

theorem exists_split (hmem : tgtSvc ∈ s.services) : ∃ below above, s.services = below ++ tgtSvc :: above ∧
    (∀ svc ∈ below, s.services.idxOf svc < s.services.idxOf tgtSvc) ∧
    ∀ svc ∈ tgtSvc :: above, s.services.idxOf tgtSvc ≤ s.services.idxOf svc := by
  obtain ⟨below, above, hsplit⟩ := List.append_of_mem hmem
  have hnodup := s.nodup
  rw [hsplit, List.nodup_append] at hnodup
  have hbelow : tgtSvc ∉ below := fun hb => hnodup.2.2 _ hb _ List.mem_cons_self rfl
  have htgt : s.services.idxOf tgtSvc = below.length := by
    rw [hsplit, List.idxOf_append_of_notMem hbelow, List.idxOf_cons_self, Nat.add_zero]
  refine ⟨below, above, hsplit, fun svc hsvc => ?_, fun svc hsvc => ?_⟩
  · rw [htgt, hsplit, List.idxOf_append_of_mem hsvc]
    exact List.idxOf_lt_length_of_mem hsvc
  · have hnot : svc ∉ below := fun hb => hnodup.2.2 _ hb _ hsvc rfl
    rw [htgt, hsplit, List.idxOf_append_of_notMem hnot]
    exact Nat.le_add_right _ _

/-- The call returns at once when a service from the target on is active, and runs the loop otherwise. -/
theorem startStaticServices_eq (htarget : target.getD router = tgtSvc) (hmem : tgtSvc ∈ s.services) :
    ((∃ svc ∈ s.services, svc ∈ active ∧ s.services.idxOf tgtSvc ≤ s.services.idxOf svc) ∧
      s.startStaticServices router outcome active target = (.ok (), active)) ∨
    ((∀ svc ∈ s.services, svc ∈ active → s.services.idxOf svc < s.services.idxOf tgtSvc) ∧
      s.startStaticServices router outcome active target = startLoop outcome tgtSvc s.services [] active) := by
  obtain ⟨below, above, hsplit, hlt, hle⟩ := exists_split hmem
  have hfilter : s.services.filter (· ∈ active) =
      below.filter (· ∈ active) ++ (tgtSvc :: above).filter (· ∈ active) := by
    rw [hsplit, List.filter_append]
  simp only [startStaticServices, htarget]
  rw [if_neg (not_not.mpr hmem), hfilter, List.getLast?_append]
  cases hlast : ((tgtSvc :: above).filter (· ∈ active)).getLast? with
  | some highest =>
    have hhighest := List.mem_filter.mp (List.mem_of_getLast? hlast)
    have hmem' : highest ∈ s.services := by
      rw [hsplit]
      exact List.mem_append_right _ hhighest.1
    refine .inl ⟨⟨highest, hmem', of_decide_eq_true hhighest.2, hle _ hhighest.1⟩, ?_⟩
    exact if_pos (hle _ hhighest.1)
  | none =>
    have hnone := List.filter_eq_nil_iff.mp (List.getLast?_eq_none_iff.mp hlast)
    refine .inr ⟨fun svc hsvc hactive => ?_, ?_⟩
    · rw [hsplit, List.mem_append] at hsvc
      rcases hsvc with hsvc | hsvc
      · exact hlt svc hsvc
      · exact absurd (decide_eq_true hactive) (hnone svc hsvc)
    · rw [Option.none_or]
      cases hbelow : (below.filter (· ∈ active)).getLast? with
      | none => rfl
      | some highest =>
        have hhighest := List.mem_filter.mp (List.mem_of_getLast? hbelow)
        exact if_neg (Nat.not_le.mpr (hlt _ hhighest.1))

/-- Starting the static services up to a target is all or nothing if and only if the target is unknown, or what is
active already and what fails meet the condition. -/
theorem start_static_services_iff (s : StaticServices Service) (router : Service) (outcome : Service → StartOutcome)
    (active : Finset Service) (target : Option Service) :
    s.AllOrNothing (target.getD router) active (s.startStaticServices router outcome active target) ↔
      (target.getD router ∈ s.services → s.Sound (target.getD router) outcome active) := by
  by_cases hmem : target.getD router ∈ s.services
  · rw [imp_iff_right hmem]
    rcases @startStaticServices_eq _ _ s router _ outcome active target rfl hmem with ⟨⟨svc, hsvc, hactive, hle⟩, heq⟩ | ⟨hlt, heq⟩
    · rw [heq]
      have hnot : ¬ ∀ svc ∈ s.services, svc ∈ active → s.services.idxOf svc < s.services.idxOf (target.getD router) :=
        fun h => Nat.not_lt.mpr hle (h svc hsvc hactive)
      constructor
      · intro h
        exact ⟨fun _ _ _ _ => h.upTo rfl, fun hlt => absurd hlt hnot, fun hlt => absurd hlt hnot⟩
      · intro h
        exact ⟨fun _ he => (by cases he), fun _ => h.above svc hsvc hactive hle, fun _ _ hsvc hnew => absurd hsvc hnew⟩
    · rw [heq]
      have habove : ∀ svc ∈ s.services, svc ∈ active → ¬ s.services.idxOf (target.getD router) ≤ s.services.idxOf svc :=
        fun svc hsvc hactive => Nat.not_le.mpr (hlt svc hsvc hactive)
      by_cases hfails : ∃ svc ∈ upTo (target.getD router) s.services, Fails outcome active svc
      · obtain ⟨e, he⟩ := startLoop_error s.nodup [] hfails
        rw [he]
        have hsame : active \ ((beforeFailure outcome active (upTo (target.getD router) s.services)).toFinset ∪
            ([] : List Service).toFinset) = active ↔
            ∀ svc ∈ beforeFailure outcome active (upTo (target.getD router) s.services), svc ∉ active := by
          rw [List.toFinset_nil, Finset.union_empty, Finset.sdiff_eq_self_iff_disjoint, Finset.disjoint_right]
          simp only [List.mem_toFinset]
        constructor
        · intro h
          exact ⟨fun svc hsvc hactive hle => absurd hle (habove svc hsvc hactive), fun _ _ => hsame.mp (h.raised e rfl),
            fun _ hnone => absurd hfails (by simpa using hnone)⟩
        · intro h
          exact ⟨fun _ _ => hsame.mpr (h.failing hlt hfails), fun hok => (by cases hok), fun hok => (by cases hok)⟩
      · have hnone : ∀ svc ∈ upTo (target.getD router) s.services, ¬ Fails outcome active svc :=
          fun svc hsvc hsvcFails => hfails ⟨svc, hsvc, hsvcFails⟩
        rw [startLoop_ok s.nodup [] hnone]
        have hstarted : ∀ svc, svc ∈ startedIn outcome (upTo (target.getD router) s.services) ↔
            svc ∈ upTo (target.getD router) s.services ∧ (outcome svc).starts = true := by
          intro svc
          rw [startedIn, List.mem_toFinset, List.mem_filter]
        constructor
        · intro h
          refine ⟨fun svc hsvc hactive hle => absurd hle (habove svc hsvc hactive), fun _ hsome => absurd hsome hfails,
            fun _ _ svc hsvc hnew => ?_⟩
          rcases Finset.mem_union.mp (h.upTo rfl svc hsvc) with hactive | hstart
          · exact absurd hactive hnew
          · exact ((hstarted svc).mp hstart).2
        · intro h
          refine ⟨fun _ he => (by cases he), fun _ svc hsvc => ?_, fun _ svc hsvc hnew => ?_⟩
          · by_cases hactive : svc ∈ active
            · exact Finset.mem_union_left _ hactive
            · exact Finset.mem_union_right _ ((hstarted svc).mpr ⟨hsvc, h.starting hlt hnone svc hsvc hactive⟩)
          · rcases Finset.mem_union.mp hsvc with hactive | hstart
            · exact absurd hactive hnew
            · exact ((hstarted svc).mp hstart).1
  · have hunknown : s.startStaticServices router outcome active target =
        (.error (.value "unknown target service"), active) := by
      simp only [startStaticServices]
      exact if_pos hmem
    rw [hunknown]
    refine iff_of_true ⟨fun _ _ => rfl, fun hok => ?_, fun hok => ?_⟩ fun h => absurd h hmem
    · cases hok
    · cases hok

/-- The network is up when the router fails to start, and is taken down. -/
theorem start_static_services_stops_active :
    ¬ ∀ (s : StaticServices ℕ) (router : ℕ) (outcome : ℕ → StartOutcome) (active : Finset ℕ) (target : Option ℕ),
      s.AllOrNothing (target.getD router) active (s.startStaticServices router outcome active target) := by
  intro h
  have hraised := (h ⟨[0, 1], by decide⟩ 1 (fun _ => .failed (.runtime "failed")) {0} none).raised _ rfl
  revert hraised
  decide

end call

end StaticServices

end Uno
