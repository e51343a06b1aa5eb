import Uno.Agent.StaticServices
import Uno.Lib.Run

/-!
# Runs of starting and stopping static services

`start_static_services` starts from the bottom of the list and `stop_static_services` stops from its top. In every run
of calls from a host on which none is active, the active services are the runnable ones up to some place of the list,
and what each call leads to follows from it (`calls_exact`).
-/

namespace Uno

namespace StaticServices

variable {Service : Type} [DecidableEq Service]

/-! ### Stopping -/

/-- The loop over the services that are left, in reverse order, after the errors of those before. A service is not
active after it was stopped, even if this raised. -/
def stopLoop (raises : Service → Option Exn) (tgtSvc : Service) :
    List Service → List Exn → Finset Service → List Exn × Finset Service
  | [], errors, active => (errors, active)
  | svc :: rest, errors, active =>
    if svc = tgtSvc then (errors ++ (raises svc).toList, down active svc)
    else stopLoop raises tgtSvc rest (errors ++ (raises svc).toList) (down active svc)

/-- `stop_static_services`; by default the target is the network. -/
def stopStaticServices (s : StaticServices Service) (net : Service) (raises : Service → Option Exn)
    (active : Finset Service) (downTo : Option Service) : Result Unit × Finset Service :=
  let downTo := downTo.getD net
  if downTo ∉ s.services then (.error (.value "unknown target service"), active)
  else
    let result := stopLoop raises downTo s.services.reverse [] active
    (if result.1 = [] then .ok () else .error (.runtime "errors while stopping services"), result.2)

/-! ### Runs -/

inductive ServicesCall (Service : Type) where
  | start (outcome : Service → StartOutcome) (upTo : Option Service)
  | stop (raises : Service → Option Exn) (downTo : Option Service)

/-- What the host has when a call returned, or raised. -/
def callStep (s : StaticServices Service) (router net : Service) (active : Finset Service) :
    ServicesCall Service → Except Unit (Finset Service)
  | .start outcome upTo => .ok (s.startStaticServices router outcome active upTo).2
  | .stop raises downTo => .ok (s.stopStaticServices net raises active downTo).2

/-- The services that are not runnable, or a process of their own, are not activated by their start. -/
def CallOk (runnable : Service → Bool) : ServicesCall Service → Prop
  | .start outcome _ => ∀ svc, runnable svc = true ↔ outcome svc ≠ .ignored
  | .stop _ _ => True

/-- The runnable services of a list. -/
def runnableIn (runnable : Service → Bool) (l : List Service) : Finset Service :=
  (l.filter fun svc => runnable svc).toFinset

variable {s : StaticServices Service} {router net tgtSvc svc : Service} {runnable : Service → Bool}
  {outcome : Service → StartOutcome} {raises : Service → Option Exn} {active : Finset Service}

theorem mem_runnableIn {l : List Service} : svc ∈ runnableIn runnable l ↔ svc ∈ l ∧ runnable svc = true := by
  rw [runnableIn, List.mem_toFinset, List.mem_filter]

/-- The active services are the runnable ones of some initial part of the list. -/
def Bottom (s : StaticServices Service) (runnable : Service → Bool) (active : Finset Service) : Prop :=
  ∃ below above, s.services = below ++ above ∧ active = runnableIn runnable below

theorem stopLoop_eq (l : List Service) (errors : List Exn) :
    (stopLoop raises tgtSvc l errors active).2 = active \ (upTo tgtSvc l).toFinset := by
  induction l generalizing errors active with
  | nil => simp [stopLoop, upTo]
  | cons head rest ih =>
    rw [stopLoop, upTo]
    split_ifs
    · simp [down, Finset.sdiff_singleton_eq_erase]
    · rw [ih, down, List.toFinset_cons, Finset.sdiff_insert, Finset.erase_sdiff_comm]

theorem upTo_append_of_notMem {l rest : List Service} (h : tgtSvc ∉ l) :
    upTo tgtSvc (l ++ rest) = l ++ upTo tgtSvc rest := by
  induction l with
  | nil => rfl
  | cons head l ih =>
    obtain ⟨hne, hmem⟩ := not_or.mp (mt List.mem_cons.mpr h)
    rw [List.cons_append, upTo, if_neg (Ne.symm hne), ih hmem]
    rfl

theorem upTo_append_of_mem {l rest : List Service} (h : tgtSvc ∈ l) : upTo tgtSvc (l ++ rest) = upTo tgtSvc l := by
  induction l with
  | nil => cases h
  | cons head l ih =>
    rw [List.cons_append, upTo, upTo]
    split_ifs with heq
    · rfl
    · rw [ih ((List.mem_cons.mp h).resolve_left (Ne.symm heq))]

/-! ### What a call leads to -/

/-- A start leaves no service active if it raises, and otherwise adds the runnable services up to the target. -/
structure StartExact (s : StaticServices Service) (runnable : Service → Bool) (active : Finset Service)
    (outcome : Service → StartOutcome) (tgtSvc : Service) (result : Result Unit × Finset Service) : Prop where
  unknown : tgtSvc ∉ s.services → result = (.error (.value "unknown target service"), active)
  raised : tgtSvc ∈ s.services → ∀ e, result.1 = .error e →
    result.2 = ∅ ∧ ∃ svc ∈ upTo tgtSvc s.services, Fails outcome active svc
  returned : result.1 = .ok () →
    ∀ svc, svc ∈ result.2 ↔ svc ∈ active ∨ (svc ∈ upTo tgtSvc s.services ∧ runnable svc = true)

/-- A stop leaves the services below the target active, whatever raises. -/
structure StopExact (s : StaticServices Service) (active : Finset Service) (tgtSvc : Service)
    (result : Result Unit × Finset Service) : Prop where
  unknown : tgtSvc ∉ s.services → result = (.error (.value "unknown target service"), active)
  stopped : tgtSvc ∈ s.services →
    ∀ svc, svc ∈ result.2 ↔ svc ∈ active ∧ s.services.idxOf svc < s.services.idxOf tgtSvc

theorem not_fails_of_mem {below : List Service} (hok : ∀ svc, runnable svc = true ↔ outcome svc ≠ .ignored)
    (hactive : active = runnableIn runnable below) (hsvc : svc ∈ below) : ¬ Fails outcome active svc := by
  rintro ⟨hnot, hfails⟩
  refine hnot ?_
  rw [hactive, mem_runnableIn]
  refine ⟨hsvc, (hok svc).mpr fun hignored => ?_⟩
  rw [hignored] at hfails
  cases hfails

theorem mem_startedIn {l : List Service} (hok : ∀ svc, runnable svc = true ↔ outcome svc ≠ .ignored)
    (hfails : ∀ svc ∈ l, ¬ Fails outcome active svc) :
    svc ∈ active ∪ startedIn outcome l ↔ svc ∈ active ∨ (svc ∈ l ∧ runnable svc = true) := by
  rw [Finset.mem_union, startedIn, List.mem_toFinset, List.mem_filter, hok]
  constructor
  · rintro (hactive | ⟨hmem, hstarts⟩)
    · exact .inl hactive
    · refine .inr ⟨hmem, fun hignored => ?_⟩
      rw [hignored] at hstarts
      cases hstarts
  · rintro (hactive | ⟨hmem, hrunnable⟩)
    · exact .inl hactive
    · by_cases hactive : svc ∈ active
      · exact .inl hactive
      · refine .inr ⟨hmem, ?_⟩
        cases hsvc : outcome svc with
        | started => rfl
        | ignored => exact absurd hsvc hrunnable
        | failed e => exact absurd ⟨hactive, by rw [hsvc]; rfl⟩ (hfails svc hmem)

theorem upTo_initial (tgtSvc : Service) (l : List Service) : upTo tgtSvc l <+: l := by
  induction l with
  | nil => exact List.prefix_rfl
  | cons head l ih =>
    rw [upTo]
    split_ifs
    · exact List.cons_prefix_cons.mpr ⟨rfl, List.nil_prefix⟩
    · exact List.cons_prefix_cons.mpr ⟨rfl, ih⟩

theorem mem_below {below above : List Service} (hservices : s.services = below ++ above)
    (hsvc : svc ∈ below) (hle : s.services.idxOf tgtSvc ≤ s.services.idxOf svc) : tgtSvc ∈ below := by
  by_contra hnot
  have htgt : s.services.idxOf tgtSvc = below.length + above.idxOf tgtSvc := by
    rw [hservices, List.idxOf_append_of_notMem hnot]
  have hlt : s.services.idxOf svc < below.length := by
    rw [hservices, List.idxOf_append_of_mem hsvc]
    exact List.idxOf_lt_length_of_mem hsvc
  omega

theorem startStaticServices_unknown {target : Option Service} (h : target.getD router ∉ s.services) :
    s.startStaticServices router outcome active target = (.error (.value "unknown target service"), active) := by
  simp only [startStaticServices]
  exact if_pos h

/-- Without a failure the services up to the target are added; with one, nothing stays active. -/
theorem Bottom.startLoop (h : s.Bottom runnable active) (hok : ∀ svc, runnable svc = true ↔ outcome svc ≠ .ignored) :
    ((∀ svc ∈ upTo tgtSvc s.services, ¬ Fails outcome active svc) ∧
      ∃ active', startLoop outcome tgtSvc s.services [] active = (.ok (), active') ∧
        ∀ svc, svc ∈ active' ↔ svc ∈ active ∨ (svc ∈ upTo tgtSvc s.services ∧ runnable svc = true)) ∨
    ((∃ svc ∈ upTo tgtSvc s.services, Fails outcome active svc) ∧
      ∃ e, startLoop outcome tgtSvc s.services [] active = (.error e, ∅)) := by
  by_cases hfails : ∃ svc ∈ upTo tgtSvc s.services, Fails outcome active svc
  · refine .inr ⟨hfails, ?_⟩
    obtain ⟨e, he⟩ := startLoop_error s.nodup [] hfails
    refine ⟨e, he.trans (congrArg _ ?_)⟩
    obtain ⟨below, above, hservices, hactive⟩ := h
    rw [Finset.sdiff_eq_empty_iff_subset]
    intro svc hsvc
    have hbelow : svc ∈ below := (mem_runnableIn.mp (hactive ▸ hsvc)).1
    have htgt : tgtSvc ∉ below := by
      intro htgt
      obtain ⟨svc', hsvc', hfails'⟩ := hfails
      rw [hservices, upTo_append_of_mem htgt] at hsvc'
      exact not_fails_of_mem hok hactive (upTo_subset hsvc') hfails'
    rw [Finset.mem_union, List.mem_toFinset, hservices, upTo_append_of_notMem htgt, beforeFailure,
      List.takeWhile_append_of_pos fun svc' hsvc' => decide_eq_true (not_fails_of_mem hok hactive hsvc')]
    exact .inl (List.mem_append_left _ hbelow)
  · have hnone : ∀ svc ∈ upTo tgtSvc s.services, ¬ Fails outcome active svc := fun svc hsvc hf => hfails ⟨svc, hsvc, hf⟩
    exact .inl ⟨hnone, _, startLoop_ok s.nodup [] hnone, fun svc => mem_startedIn hok hnone⟩

theorem Bottom.startExact (h : s.Bottom runnable active) (hok : ∀ svc, runnable svc = true ↔ outcome svc ≠ .ignored)
    (router : Service) (target : Option Service) : s.StartExact runnable active outcome (target.getD router)
      (s.startStaticServices router outcome active target) := by
  by_cases hmem : target.getD router ∈ s.services
  · rcases @startStaticServices_eq _ _ s router _ outcome active target rfl hmem with
      ⟨⟨svc, hsvc, hsvcActive, hle⟩, heq⟩ | ⟨-, heq⟩
    · -- a service from the target on is active, so that the target is in the part of the active ones
      rw [heq]
      refine ⟨fun hnot => absurd hmem hnot, fun _ e he => ?_, fun _ svc' => ⟨.inl, ?_⟩⟩
      · cases he
      · rintro (h | ⟨hupTo, hrunnable⟩)
        · exact h
        · obtain ⟨below, above, hservices, hactive⟩ := h
          have hbelow : svc ∈ below := (mem_runnableIn.mp (hactive ▸ hsvcActive)).1
          have htgt := mem_below hservices hbelow hle
          rw [hservices, upTo_append_of_mem htgt] at hupTo
          rw [hactive]
          exact mem_runnableIn.mpr ⟨upTo_subset hupTo, hrunnable⟩
    · rw [heq]
      rcases @Bottom.startLoop _ _ s (target.getD router) runnable outcome active h hok with
        ⟨-, active', hloop, hactive'⟩ | ⟨hfails, e, hloop⟩
      · rw [hloop]
        refine ⟨fun hnot => absurd hmem hnot, fun _ e he => ?_, fun _ => hactive'⟩
        cases he
      · rw [hloop]
        refine ⟨fun hnot => absurd hmem hnot, fun _ _ _ => ⟨rfl, hfails⟩, fun he => ?_⟩
        cases he
  · rw [startStaticServices_unknown hmem]
    refine ⟨fun _ => rfl, fun h => absurd h hmem, fun he => ?_⟩
    cases he

theorem StartExact.bottom {result : Result Unit × Finset Service} (h : s.Bottom runnable active)
    (hexact : s.StartExact runnable active outcome tgtSvc result) : s.Bottom runnable result.2 := by
  by_cases hmem : tgtSvc ∈ s.services
  · cases hresult : result.1 with
    | error e =>
      rw [(hexact.raised hmem e hresult).1]
      exact ⟨[], s.services, rfl, rfl⟩
    | ok _ =>
      have hresult := hexact.returned hresult
      obtain ⟨below, above, hservices, hactive⟩ := h
      by_cases htgt : tgtSvc ∈ below
      · refine ⟨below, above, hservices, Finset.ext fun svc => ?_⟩
        rw [hresult, hservices, upTo_append_of_mem htgt, hactive, mem_runnableIn]
        exact or_iff_left_of_imp fun h => ⟨upTo_subset h.1, h.2⟩
      · obtain ⟨rest, hrest⟩ := upTo_initial tgtSvc s.services
        refine ⟨upTo tgtSvc s.services, rest, hrest.symm, Finset.ext fun svc => ?_⟩
        rw [hresult, hactive, mem_runnableIn, mem_runnableIn]
        refine or_iff_right_of_imp fun h => ⟨?_, h.2⟩
        rw [hservices, upTo_append_of_notMem htgt]
        exact List.mem_append_left _ h.1
  · rw [hexact.unknown hmem]
    exact h

theorem stopExact (hsub : ∀ svc ∈ active, svc ∈ s.services) (net : Service) (raises : Service → Option Exn)
    (target : Option Service) :
    s.StopExact active (target.getD net) (s.stopStaticServices net raises active target) := by
  by_cases hmem : target.getD net ∈ s.services
  · refine ⟨fun hnot => absurd hmem hnot, fun _ svc => ?_⟩
    obtain ⟨below, above, hsplit, hlt, hle⟩ := exists_split hmem
    have hnot : target.getD net ∉ above.reverse := by
      have hnodup := s.nodup
      rw [hsplit, List.nodup_append, List.nodup_cons] at hnodup
      exact fun h => hnodup.2.1.1 (List.mem_reverse.mp h)
    have hupTo : upTo (target.getD net) s.services.reverse = above.reverse ++ [target.getD net] := by
      rw [hsplit, List.reverse_append, List.reverse_cons, List.append_assoc, upTo_append_of_notMem hnot,
        List.singleton_append, upTo, if_pos rfl]
    have hresult : (s.stopStaticServices net raises active target).2 =
        active \ (upTo (target.getD net) s.services.reverse).toFinset := by
      simp only [stopStaticServices]
      rw [if_neg (not_not.mpr hmem)]
      exact stopLoop_eq ..
    rw [hresult, hupTo, Finset.mem_sdiff, List.mem_toFinset]
    refine and_congr_right fun hactive => ⟨fun habove => ?_, fun hidx habove => ?_⟩
    · have hsvc := hsub svc hactive
      rw [hsplit, List.mem_append] at hsvc
      refine hlt svc (hsvc.resolve_right fun h => habove ?_)
      rcases List.mem_cons.mp h with rfl | h
      · exact List.mem_append_right _ (.head _)
      · exact List.mem_append_left _ (List.mem_reverse.mpr h)
    · have : svc ∈ target.getD net :: above := by
        rcases List.mem_append.mp habove with h | h
        · exact .tail _ (List.mem_reverse.mp h)
        · exact List.mem_cons.mpr (.inl (List.mem_singleton.mp h))
      have := hle svc this
      omega
  · have hunknown : s.stopStaticServices net raises active target =
        (.error (.value "unknown target service"), active) := by
      simp only [stopStaticServices]
      exact if_pos hmem
    rw [hunknown]
    exact ⟨fun _ => rfl, fun h => absurd h hmem⟩

theorem StopExact.bottom {result : Result Unit × Finset Service} (h : s.Bottom runnable active)
    (hexact : s.StopExact active tgtSvc result) : s.Bottom runnable result.2 := by
  by_cases hmem : tgtSvc ∈ s.services
  · obtain ⟨below, above, hservices, hactive⟩ := h
    obtain ⟨lo, hi, hsplit, hlt, hle⟩ := exists_split hmem
    have hidx : ∀ svc ∈ s.services, s.services.idxOf svc < s.services.idxOf tgtSvc ↔ svc ∈ lo := by
      intro svc hsvc
      refine ⟨fun h => ?_, hlt svc⟩
      rw [hsplit, List.mem_append] at hsvc
      refine hsvc.resolve_right fun hhi => ?_
      have := hle svc hhi
      omega
    have hresult : ∀ svc, svc ∈ result.2 ↔ svc ∈ below ∧ runnable svc = true ∧ svc ∈ lo := by
      intro svc
      rw [hexact.stopped hmem svc, hactive, mem_runnableIn, and_assoc]
      refine and_congr_right fun hbelow => and_congr_right fun _ => hidx svc ?_
      rw [hservices]
      exact List.mem_append_left _ hbelow
    have hinitial : below <+: lo ∨ lo <+: below :=
      List.prefix_or_prefix_of_prefix ⟨above, hservices.symm⟩ ⟨_, hsplit.symm⟩
    rcases hinitial with hinitial | hinitial
    · refine ⟨below, above, hservices, Finset.ext fun svc => ?_⟩
      rw [hresult, mem_runnableIn]
      exact ⟨fun h => ⟨h.1, h.2.1⟩, fun h => ⟨h.1, h.2, hinitial.subset h.1⟩⟩
    · refine ⟨lo, _, hsplit, Finset.ext fun svc => ?_⟩
      rw [hresult, mem_runnableIn]
      exact ⟨fun h => ⟨h.2.2, h.2.1⟩, fun h => ⟨hinitial.subset h.1, h.2, h.1⟩⟩
  · rw [hexact.unknown hmem]
    exact h

/-- In every run of calls from a host on which no service is active, the active services are the runnable ones of an
initial part of the list, and every further call does exactly what it should to them. -/
theorem calls_exact (s : StaticServices Service) (router net : Service) (runnable : Service → Bool)
    (hrun : Run.Reaches (s.callStep router net) (fun _ call => CallOk runnable call) ∅ active) :
    s.Bottom runnable active ∧
      (∀ outcome target, CallOk runnable (.start outcome target) →
        s.StartExact runnable active outcome (target.getD router)
          (s.startStaticServices router outcome active target)) ∧
      ∀ raises target, s.StopExact active (target.getD net) (s.stopStaticServices net raises active target) := by
  have hsub : ∀ {active : Finset Service}, s.Bottom runnable active → ∀ svc ∈ active, svc ∈ s.services := by
    rintro active ⟨below, above, hservices, rfl⟩ svc hsvc
    rw [hservices]
    exact List.mem_append_left _ (mem_runnableIn.mp hsvc).1
  have hbottom : s.Bottom runnable active := by
    refine hrun.invariant ⟨[], s.services, rfl, rfl⟩ fun active call active' h hok hstep => ?_
    cases call with
    | start outcome target =>
      rw [← Except.ok.inj hstep]
      exact (h.startExact hok router target).bottom h
    | stop raises target =>
      rw [← Except.ok.inj hstep]
      exact (stopExact (hsub h) net raises target).bottom h
  exact ⟨hbottom, fun outcome target hok => hbottom.startExact hok router target,
    fun raises target => stopExact (hsub hbottom) net raises target⟩

/-- The network and the router are started, and the router is stopped again. -/
theorem calls_exact_twoServices : ∃ active,
    Run.Reaches (callStep ⟨[0, 1], by decide⟩ 1 0) (fun _ call => CallOk (fun _ => true) call) ∅ active ∧
      active = {0} ∧ Bottom ⟨[0, 1], by decide⟩ (fun _ => true) active := by
  have hok : CallOk (fun _ : ℕ => true) (.start (fun _ => .started) none) := fun svc => by simp
  have hrun : Run.Reaches (callStep ⟨[0, 1], by decide⟩ 1 0) (fun _ call => CallOk (fun _ => true) call) ∅ ∅ := .refl
  have hrun := hrun.step (ServicesCall.start (fun _ => .started) none) hok rfl
  have hrun := hrun.step (ServicesCall.stop (fun _ => none) (some 1)) trivial rfl
  exact ⟨_, hrun, by decide, (calls_exact _ 1 0 _ hrun).1⟩

end StaticServices

end Uno
