import Uno.Core.Exn
import Uno.Lib.ExitStack
import Mathlib.Data.Finset.Basic
import Mathlib.Logic.Function.Basic

/-!
# The contexts of a spinning agent

`spin` enters the PID file, the middleware, the services and the agent itself, and exits them in reverse. A service that
a systemd unit started before is taken over; it is given back unless an exception other than an interrupt is on its way.
An agent that reloads its configuration stops all services, and the agent that follows it starts them again:
`run_hands_back` says what a whole chain of agents leaves behind.
-/

namespace Uno

open ExitStack

/-- What an operation may raise, the loop apart. -/
inductive Raised where
  | keyboardInterrupt
  | error (e : Exn)

inductive AgentExn where
  | raised (r : Raised)
  /-- With or without a new agent that was received. -/
  | agentReload (newAgent : Bool)

/-- `_spin` returns, or raises. -/
abbrev SpinEnd := Option AgentExn

/-- What is there of a service on the host: the file its systemd unit is marked with, and whether the service is up. -/
structure ServiceState (Config : Type) where
  marker : Option Config
  up : Bool

structure AgentHost (Service Config : Type) where
  /-- There is a PID file that this process wrote. -/
  pidFile : Bool
  /-- The process has a participant that is not closed. -/
  participant : Bool
  /-- The marker of the agent's own unit. -/
  agentMarker : Option Config
  services : Service → ServiceState Config

/-- The agent, as far as its contexts need it. -/
structure SpinAgent (Service Config : Type) where
  services : List Service
  nodup : services.Nodup
  /-- Whether the service has a systemd unit. -/
  static : Service → Bool
  runnable : Service → Bool
  enableSystemd : Bool
  initialActiveStaticServices : Finset Service
  registryId : Config

/-- What the operations on a service come to, and what those that raise leave behind. -/
structure ServiceEnv (Config : Type) where
  /-- `_start`, which may raise with the service up. -/
  start : Option (Raised × Bool)
  /-- `write_marker` after `_start`. -/
  markStarted : Option (Raised × Option Config)
  takeOver : Option Raised
  /-- `write_marker` when the service is given back. -/
  giveBack : Option (Raised × Option Config)
  stop : Option (Raised × Bool)
  /-- `delete_marker`, which may raise with the marker still there. -/
  unmark : Option (Raised × Bool)

/-- What the operations of an agent come to, and what those that raise leave behind. -/
structure SpinEnv (Service Config : Type) where
  supportsAgent : Bool
  /-- `external_agent_process` and `write_pid_file`, which may raise after the file was opened. -/
  writePidFile : Option (Raised × Bool)
  deletePidFile : Option (Raised × Bool)
  /-- `start` of the participant, which may raise after `_dp` was created. -/
  participantStart : Option (Raised × Bool)
  /-- `stop` of the participant, which may raise before `_dp` is closed. -/
  participantStop : Option (Raised × Bool)
  service : Service → ServiceEnv Config
  /-- `_on_started`, which may raise with a marker written. -/
  onStarted : Option (Raised × Option Config)
  /-- The end of `_on_started`, which may raise with the marker still there. -/
  offline : Option (Raised × Bool)
  loop : SpinEnd
  /-- What loading the agent again raises, and the configuration it is loaded with. -/
  reload : Option Raised
  newRegistryId : Config

/-- Whether services are stopped whatever started them. -/
def assertStopped : Option AgentExn → Bool
  | none => false
  | some (.raised .keyboardInterrupt) => false
  | some _ => true

variable {Service Config : Type}

namespace SpinEnv

variable (env : SpinEnv Service Config)

/-- `self.agent.reloading`. -/
def reloading : Bool :=
  match env.loop with
  | some (.agentReload newAgent) => newAgent
  | _ => false

/-- `_pid_file`. -/
def pidFileContext : Context (AgentHost Service Config) AgentExn where
  enter h := match env.writePidFile with
    | some (r, written) => (some (.raised r), { h with pidFile := written })
    | none => (none, { h with pidFile := true })
  exit e h := match env.deletePidFile with
    | some (r, left) => (some (.raised r), { h with pidFile := left })
    | none => (e, { h with pidFile := false })

/-- `_start_participant`. -/
def participantContext : Context (AgentHost Service Config) AgentExn where
  enter h := match env.participantStart with
    | some (r, created) => (some (.raised r), { h with participant := created })
    | none => (none, { h with participant := true })
  exit e h := match env.participantStop with
    | some (r, left) => (some (.raised r), { h with participant := left })
    | none => (e, { h with participant := false })

end SpinEnv

namespace SpinAgent

section contexts
variable (a : SpinAgent Service Config) (env : SpinEnv Service Config)

/-- `_on_started`. -/
def onStartedContext : Context (AgentHost Service Config) AgentExn where
  enter h := match env.onStarted with
    | some (r, marker) => (some (.raised r), if a.enableSystemd then { h with agentMarker := marker } else h)
    | none => (none, if a.enableSystemd then { h with agentMarker := some a.registryId } else h)
  exit e h := match env.offline with
    | some (r, left) => (some (.raised r), if left then h else { h with agentMarker := none })
    | none => (e, { h with agentMarker := none })

/-- `write_marker` of a service that has a unit. -/
def writeMarker (raises : Option (Raised × Option Config)) : Option Raised × Option Config :=
  match raises with
  | some (r, marker) => (some r, marker)
  | none => (none, some a.registryId)

/-- `delete_marker` of a service that has a unit. -/
def deleteMarker (raises : Option (Raised × Bool)) (marker : Option Config) : Option Raised × Option Config :=
  match raises with
  | some (r, left) => (some r, if left then marker else none)
  | none => (none, none)

variable [DecidableEq Config]

/-- `AgentService.start`. -/
def startService (svc : Service) (t : ServiceState Config) : Option Raised × ServiceState Config :=
  if a.runnable svc = false then (none, t)
  else if a.static svc = true ∧ t.marker ≠ none then
    -- the unit is taken over, if it was started with the same configuration
    if t.marker = some a.registryId then ((env.service svc).takeOver, t)
    else (some (.error (.runtime "stop systemd unit")), t)
  else match (env.service svc).start with
    | some (r, up) => (some r, { t with up := up })
    | none =>
      if a.static svc then
        ((a.writeMarker (env.service svc).markStarted).1, ⟨(a.writeMarker (env.service svc).markStarted).2, true⟩)
      else (none, { t with up := true })

/-- `Runnable.stop`. -/
def runnableStop (svc : Service) (e : Option AgentExn) : Option AgentExn × Bool :=
  match (env.service svc).stop with
  | some (r, up) => (some (.raised r), up)
  | none => (e, false)

variable [DecidableEq Service]

/-- `AgentService.stop`, by `Runnable.__exit__`. -/
def stopService (svc : Service) (e : Option AgentExn) (t : ServiceState Config) :
    Option AgentExn × ServiceState Config :=
  if assertStopped e = false ∧ env.reloading = false ∧ a.static svc = true ∧ svc ∈ a.initialActiveStaticServices then
    match a.writeMarker (env.service svc).giveBack with
    | (some r, marker) => (some (.raised r), { t with marker := marker })
    | (none, marker) => (e, { t with marker := marker })
  else if a.static svc then
    -- the marker is deleted whatever `_stop` raised
    match deleteMarker (env.service svc).unmark t.marker with
    | (some r, marker) => (some (.raised r), ⟨marker, (runnableStop env svc e).2⟩)
    | (none, marker) => ((runnableStop env svc e).1, ⟨marker, (runnableStop env svc e).2⟩)
  else ((runnableStop env svc e).1, { t with up := (runnableStop env svc e).2 })

def serviceContext (svc : Service) : Context (AgentHost Service Config) AgentExn where
  enter h :=
    ((a.startService env svc (h.services svc)).1.map .raised,
      { h with services := Function.update h.services svc (a.startService env svc (h.services svc)).2 })
  exit e h :=
    ((a.stopService env svc e (h.services svc)).1,
      { h with services := Function.update h.services svc (a.stopService env svc e (h.services svc)).2 })

/-- `spin`. -/
def spin (h : AgentHost Service Config) : Option AgentExn × AgentHost Service Config :=
  if env.supportsAgent then
    withStack
      (env.pidFileContext :: env.participantContext ::
        (a.services.map (a.serviceContext env) ++ [a.onStartedContext env]))
      (fun h => (env.loop, h)) h
  else (some (.raised (.error (.runtime "cannot start agent"))), h)

/-- The loop of `agent_action`: an agent that is to be loaded again is followed by the next one, which keeps the
services that were active at first. -/
def run (a : SpinAgent Service Config) : List (SpinEnv Service Config) → AgentHost Service Config →
    Option AgentExn × Config × AgentHost Service Config
  | [], h => (some (.agentReload false), a.registryId, h)
  | env :: rest, h =>
    match a.spin env h with
    | (some (.agentReload _), h') =>
      match env.reload with
      | some r => (some (.raised r), a.registryId, h')
      | none => run { a with registryId := env.newRegistryId } rest h'
    | (e, h') => (e, a.registryId, h')

end contexts

end SpinAgent

/-! ### What is on its way -/

/-- The operation is not interrupted. -/
def Uninterrupted {α : Type} (raises : Option (Raised × α)) : Prop := ∀ x, raises ≠ some (.keyboardInterrupt, x)

structure ServiceEnv.NoInterrupt (env : ServiceEnv Config) : Prop where
  start : Uninterrupted env.start
  markStarted : Uninterrupted env.markStarted
  takeOver : env.takeOver ≠ some .keyboardInterrupt
  giveBack : Uninterrupted env.giveBack
  stop : Uninterrupted env.stop
  unmark : Uninterrupted env.unmark

namespace SpinEnv

variable {env : SpinEnv Service Config}

/-- No operation apart from the loop is interrupted. -/
structure NoInterrupt (env : SpinEnv Service Config) : Prop where
  writePidFile : Uninterrupted env.writePidFile
  deletePidFile : Uninterrupted env.deletePidFile
  participantStart : Uninterrupted env.participantStart
  participantStop : Uninterrupted env.participantStop
  service : ∀ svc, (env.service svc).NoInterrupt
  onStarted : Uninterrupted env.onStarted
  offline : Uninterrupted env.offline
  reload : env.reload ≠ some .keyboardInterrupt

/-- An exception that some operation apart from the loop raised. -/
def RaisedOutside (env : SpinEnv Service Config) (e : Option AgentExn) : Prop :=
  ∃ r, e = some (.raised r) ∧ (env.NoInterrupt → r ≠ .keyboardInterrupt)

theorem raisedOutside {α : Type} {raises : Option (Raised × α)} {r : Raised} {x : α}
    (huninterrupted : env.NoInterrupt → Uninterrupted raises) (h : raises = some (r, x)) :
    env.RaisedOutside (some (.raised r)) := by
  refine ⟨r, rfl, ?_⟩
  rintro hquiet rfl
  exact huninterrupted hquiet x h

/-- What a context does to the exception on its way. -/
def Passes (env : SpinEnv Service Config) (e e' : Option AgentExn) : Prop := e' = e ∨ env.RaisedOutside e'

/-- The loop returned, asked for a reload, or was the only thing that was interrupted. -/
def Clean (env : SpinEnv Service Config) (e : Option AgentExn) : Prop :=
  e = none ∨ (∃ newAgent, e = some (.agentReload newAgent)) ∨
    (e = some (.raised .keyboardInterrupt) ∧ env.NoInterrupt)

theorem Clean.not_raisedOutside {e : Option AgentExn} (h : env.Clean e) : ¬ env.RaisedOutside e := by
  rintro ⟨r, rfl, hr⟩
  rcases h with h | ⟨_, h⟩ | ⟨h, hquiet⟩
  · cases h
  · cases h
  · cases h
    exact hr hquiet rfl

theorem Clean.eq_of_passes {e e' : Option AgentExn} (h : env.Clean e') (hpasses : env.Passes e e') : e = e' := by
  rcases hpasses with heq | hraised
  · exact heq.symm
  · exact absurd hraised h.not_raisedOutside

theorem Passes.trans {e e' e'' : Option AgentExn} (h : env.Passes e e') (h' : env.Passes e' e'') :
    env.Passes e e'' := by
  rcases h' with rfl | h'
  · exact h
  · exact .inr h'

/-- A context that raises only what operations apart from the loop raise. -/
structure Plain (env : SpinEnv Service Config) (c : Context (AgentHost Service Config) AgentExn) : Prop where
  enter : ∀ h x h', c.enter h = (some x, h') → env.RaisedOutside (some x)
  exit : ∀ e h, env.Passes e (c.exit e h).1

theorem Plain.within_clean {c : Context (AgentHost Service Config) AgentExn}
    {body : AgentHost Service Config → Option AgentExn × AgentHost Service Config} {h h' : AgentHost Service Config}
    {e : Option AgentExn} (hc : env.Plain c) (hclean : env.Clean e) (hrun : c.within body h = (e, h')) :
    ∃ h₁ h₂, c.enter h = (none, h₁) ∧ body h₁ = (e, h₂) ∧ c.exit e h₂ = (e, h') := by
  rcases hx : c.enter h with ⟨x, h₁⟩
  cases x with
  | some x =>
    rw [within_of_raised hx] at hrun
    obtain ⟨rfl, -⟩ := Prod.mk.inj hrun
    exact absurd (hc.enter h x h₁ hx) hclean.not_raisedOutside
  | none =>
    rw [within_of_entered hx] at hrun
    have hpasses := hc.exit (body h₁).1 (body h₁).2
    rw [hrun] at hpasses
    have heq : (body h₁).1 = e := hclean.eq_of_passes hpasses
    rw [heq] at hrun
    exact ⟨h₁, (body h₁).2, rfl, Prod.ext heq rfl, hrun⟩

theorem plain_pidFile : env.Plain env.pidFileContext where
  enter h x h' hx := by
    unfold pidFileContext at hx
    cases hr : env.writePidFile with
    | none =>
      rw [hr] at hx
      cases hx
    | some r =>
      rw [hr] at hx
      rw [← (Prod.mk.inj hx).1]
      exact raisedOutside (·.writePidFile) hr
  exit e h := by
    unfold pidFileContext
    cases hr : env.deletePidFile with
    | none => exact .inl rfl
    | some r => exact .inr (raisedOutside (·.deletePidFile) hr)

theorem plain_participant : env.Plain env.participantContext where
  enter h x h' hx := by
    unfold participantContext at hx
    cases hr : env.participantStart with
    | none =>
      rw [hr] at hx
      cases hx
    | some r =>
      rw [hr] at hx
      rw [← (Prod.mk.inj hx).1]
      exact raisedOutside (·.participantStart) hr
  exit e h := by
    unfold participantContext
    cases hr : env.participantStop with
    | none => exact .inl rfl
    | some r => exact .inr (raisedOutside (·.participantStop) hr)

theorem services_pidFile : (∀ h : AgentHost Service Config, (env.pidFileContext.enter h).2.services = h.services) ∧
    ∀ e, ∀ h : AgentHost Service Config, (env.pidFileContext.exit e h).2.services = h.services := by
  refine ⟨fun h => ?_, fun e h => ?_⟩
  · unfold pidFileContext
    dsimp only
    split <;> rfl
  · unfold pidFileContext
    dsimp only
    split <;> rfl

theorem services_participant :
    (∀ h : AgentHost Service Config, (env.participantContext.enter h).2.services = h.services) ∧
      ∀ e, ∀ h : AgentHost Service Config, (env.participantContext.exit e h).2.services = h.services := by
  refine ⟨fun h => ?_, fun e h => ?_⟩
  · unfold participantContext
    dsimp only
    split <;> rfl
  · unfold participantContext
    dsimp only
    split <;> rfl

theorem exit_pidFile_clean {h h' : AgentHost Service Config} {e e' : Option AgentExn} (hclean : env.Clean e')
    (hexit : env.pidFileContext.exit e h = (e', h')) : h' = { h with pidFile := false } := by
  unfold pidFileContext at hexit
  cases hr : env.deletePidFile with
  | none =>
    simp only [hr] at hexit
    exact (Prod.mk.inj hexit).2.symm
  | some r =>
    simp only [hr] at hexit
    rw [← (Prod.mk.inj hexit).1] at hclean
    exact absurd (raisedOutside (·.deletePidFile) hr) hclean.not_raisedOutside

theorem exit_participant_clean {h h' : AgentHost Service Config} {e e' : Option AgentExn} (hclean : env.Clean e')
    (hexit : env.participantContext.exit e h = (e', h')) : h' = { h with participant := false } := by
  unfold participantContext at hexit
  cases hr : env.participantStop with
  | none =>
    simp only [hr] at hexit
    exact (Prod.mk.inj hexit).2.symm
  | some r =>
    simp only [hr] at hexit
    rw [← (Prod.mk.inj hexit).1] at hclean
    exact absurd (raisedOutside (·.participantStop) hr) hclean.not_raisedOutside

theorem withStack_clean {contexts : List (Context (AgentHost Service Config) AgentExn)} {τ : Type}
    (f : AgentHost Service Config → τ) (hplain : ∀ c ∈ contexts, env.Plain c)
    (hkeep : ∀ c ∈ contexts, ∀ e h, f (c.exit e h).2 = f h) {e : Option AgentExn} (hclean : env.Clean e)
    {body : AgentHost Service Config → Option AgentExn × AgentHost Service Config} {h h' : AgentHost Service Config}
    (hrun : withStack contexts body h = (e, h')) : ∃ h₁ h₂, body h₁ = (e, h₂) ∧ f h' = f h₂ := by
  induction contexts generalizing h h' with
  | nil => exact ⟨h, h', hrun, rfl⟩
  | cons c rest ih =>
    rw [withStack_cons] at hrun
    obtain ⟨h₁, h₂, -, hbody, hexit⟩ := (hplain c (.head _)).within_clean hclean hrun
    obtain ⟨g₁, g₂, hg, hf⟩ := ih (fun d hd => hplain d (.tail _ hd)) (fun d hd => hkeep d (.tail _ hd)) hbody
    refine ⟨g₁, g₂, hg, ?_⟩
    have := hkeep c (.head _) e h₂
    rw [hexit] at this
    exact this.trans hf

/-- The process has neither the PID file nor the middleware. -/
def Released (h : AgentHost Service Config) : Prop := h.pidFile = false ∧ h.participant = false

/-- Writing or deleting the PID file failed and left it there. -/
def LeavesPidFile (env : SpinEnv Service Config) : Prop :=
  ∃ r, env.writePidFile = some (r, true) ∨ env.deletePidFile = some (r, true)

/-- Starting or stopping the participant failed and left it open. -/
def LeavesParticipant (env : SpinEnv Service Config) : Prop :=
  ∃ r, env.participantStart = some (r, true) ∨ env.participantStop = some (r, true)

theorem pidFile_within {body : AgentHost Service Config → Option AgentExn × AgentHost Service Config}
    {h : AgentHost Service Config} (hleft : (env.pidFileContext.within body h).2.pidFile = true) :
    env.LeavesPidFile := by
  rcases hx : env.pidFileContext.enter h with ⟨x, h₁⟩
  cases x with
  | some x =>
    rw [within_of_raised hx] at hleft
    unfold pidFileContext at hx
    cases hr : env.writePidFile with
    | none =>
      rw [hr] at hx
      cases hx
    | some r =>
      rw [hr] at hx
      obtain ⟨-, rfl⟩ := Prod.mk.inj hx
      exact ⟨r.1, .inl (hr.trans (congrArg (fun left => some (r.1, left)) hleft))⟩
  | none =>
    rw [within_of_entered hx] at hleft
    unfold pidFileContext at hleft
    cases hr : env.deletePidFile with
    | none =>
      simp only [hr] at hleft
      cases hleft
    | some r =>
      simp only [hr] at hleft
      exact ⟨r.1, .inr (hr.trans (congrArg (fun left => some (r.1, left)) hleft))⟩

theorem participant_within {body : AgentHost Service Config → Option AgentExn × AgentHost Service Config}
    {h : AgentHost Service Config} (hleft : (env.participantContext.within body h).2.participant = true) :
    env.LeavesParticipant := by
  rcases hx : env.participantContext.enter h with ⟨x, h₁⟩
  cases x with
  | some x =>
    rw [within_of_raised hx] at hleft
    unfold participantContext at hx
    cases hr : env.participantStart with
    | none =>
      rw [hr] at hx
      cases hx
    | some r =>
      rw [hr] at hx
      obtain ⟨-, rfl⟩ := Prod.mk.inj hx
      exact ⟨r.1, .inl (hr.trans (congrArg (fun left => some (r.1, left)) hleft))⟩
  | none =>
    rw [within_of_entered hx] at hleft
    unfold participantContext at hleft
    cases hr : env.participantStop with
    | none =>
      simp only [hr] at hleft
      cases hleft
    | some r =>
      simp only [hr] at hleft
      exact ⟨r.1, .inr (hr.trans (congrArg (fun left => some (r.1, left)) hleft))⟩

theorem participant_pidFile {body : AgentHost Service Config → Option AgentExn × AgentHost Service Config}
    {h : AgentHost Service Config} (hleft : (env.pidFileContext.within body h).2.participant = true) :
    h.participant = true ∨ ∃ h₁, (body h₁).2.participant = true := by
  rcases hx : env.pidFileContext.enter h with ⟨x, h₁⟩
  cases x with
  | some x =>
    rw [within_of_raised hx] at hleft
    refine .inl ?_
    unfold pidFileContext at hx
    cases hr : env.writePidFile with
    | none =>
      rw [hr] at hx
      cases hx
    | some r =>
      rw [hr] at hx
      obtain ⟨-, rfl⟩ := Prod.mk.inj hx
      exact hleft
  | none =>
    rw [within_of_entered hx] at hleft
    refine .inr ⟨h₁, ?_⟩
    unfold pidFileContext at hleft
    dsimp only at hleft
    split at hleft <;> exact hleft

end SpinEnv

namespace SpinAgent

open SpinEnv

variable {a : SpinAgent Service Config} {env : SpinEnv Service Config} {svc : Service}

theorem plain_onStarted : env.Plain (a.onStartedContext env) where
  enter h x h' hx := by
    unfold onStartedContext at hx
    cases hr : env.onStarted with
    | none =>
      rw [hr] at hx
      cases hx
    | some r =>
      rw [hr] at hx
      rw [← (Prod.mk.inj hx).1]
      exact raisedOutside (·.onStarted) hr
  exit e h := by
    unfold onStartedContext
    cases hr : env.offline with
    | none => exact .inl rfl
    | some r => exact .inr (raisedOutside (·.offline) hr)

theorem services_onStarted {h : AgentHost Service Config} :
    (withStack [a.onStartedContext env] (fun h => (env.loop, h)) h).2.services = h.services := by
  refine withStack_keeps (I := fun h' : AgentHost Service Config => h'.services = h.services)
    (fun h' hh' => hh') ?_ ?_ rfl
  · intro c hc h' hh'
    obtain rfl := List.mem_singleton.mp hc
    unfold onStartedContext
    dsimp only
    split
    · split_ifs <;> exact hh'
    · split_ifs <;> exact hh'
  · intro c hc e h' hh'
    obtain rfl := List.mem_singleton.mp hc
    unfold onStartedContext
    dsimp only
    split
    · split_ifs <;> exact hh'
    · exact hh'

theorem writeMarker_raised {raises : Option (Raised × Option Config)} {r : Raised}
    (h : (a.writeMarker raises).1 = some r) : raises = some (r, (a.writeMarker raises).2) := by
  cases raises with
  | none => cases h
  | some x => exact congrArg (fun r => some (r, x.2)) (Option.some.inj h)

theorem deleteMarker_raised {raises : Option (Raised × Bool)} {marker : Option Config} {r : Raised}
    (h : (deleteMarker raises marker).1 = some r) : ∃ left, raises = some (r, left) := by
  cases raises with
  | none => cases h
  | some x => exact ⟨x.2, congrArg (fun r => some (r, x.2)) (Option.some.inj h)⟩

variable [DecidableEq Config]

theorem startService_raised {t t' : ServiceState Config} {r : Raised}
    (h : a.startService env svc t = (some r, t')) : env.RaisedOutside (some (.raised r)) := by
  unfold startService at h
  split_ifs at h with _ _ _ hstatic
  · cases h
  · exact ⟨r, rfl, fun hquiet hr => (hquiet.service svc).takeOver (hr ▸ (Prod.mk.inj h).1)⟩
  · refine ⟨r, rfl, fun _ hr => ?_⟩
    rw [hr] at h
    cases h
  · cases hr : (env.service svc).start with
    | none =>
      rw [hr] at h
      exact raisedOutside (fun hquiet => (hquiet.service svc).markStarted) (writeMarker_raised (Prod.mk.inj h).1)
    | some x =>
      rw [hr] at h
      rw [← Option.some.inj (Prod.mk.inj h).1]
      exact raisedOutside (fun hquiet => (hquiet.service svc).start) hr
  · cases hr : (env.service svc).start with
    | none =>
      rw [hr] at h
      cases h
    | some x =>
      rw [hr] at h
      rw [← Option.some.inj (Prod.mk.inj h).1]
      exact raisedOutside (fun hquiet => (hquiet.service svc).start) hr

omit [DecidableEq Config] in
theorem passes_runnableStop {e : Option AgentExn} : env.Passes e (runnableStop env svc e).1 := by
  unfold runnableStop
  cases hr : (env.service svc).stop with
  | none => exact .inl rfl
  | some r => exact .inr (raisedOutside (fun hquiet => (hquiet.service svc).stop) hr)

variable [DecidableEq Service]

theorem plain_service : env.Plain (a.serviceContext env svc) where
  enter h x h' hx := by
    obtain ⟨hraised, -⟩ := Prod.mk.inj hx
    obtain ⟨r, hr, rfl⟩ := Option.map_eq_some_iff.mp hraised
    exact startService_raised (Prod.ext hr rfl)
  exit e h := by
    show env.Passes e (a.stopService env svc e (h.services svc)).1
    unfold stopService
    split_ifs with hback hstatic
    · split
      next r marker hr =>
        exact .inr (raisedOutside (fun hquiet => (hquiet.service svc).giveBack)
          (writeMarker_raised (congrArg Prod.fst hr)))
      next => exact .inl rfl
    · split
      next r marker hr =>
        obtain ⟨left, hleft⟩ := deleteMarker_raised (congrArg Prod.fst hr)
        exact .inr (raisedOutside (fun hquiet => (hquiet.service svc).unmark) hleft)
      next => exact passes_runnableStop
    · exact passes_runnableStop

/-! ### The services -/

/-- What becomes of a service in a session whose exception in the end is `e`. -/
inductive Ran (a : SpinAgent Service Config) (env : SpinEnv Service Config) (svc : Service) (t₀ : ServiceState Config) :
    Option AgentExn → ServiceState Config → Prop
  /-- A context before the service was not entered. -/
  | untouched {e : Option AgentExn} (hraised : env.RaisedOutside e) : Ran a env svc t₀ e t₀
  | failed {e : Option AgentExn} {r : Raised} {t : ServiceState Config} (hraised : env.RaisedOutside e)
      (hstart : a.startService env svc t₀ = (some r, t)) : Ran a env svc t₀ e t
  | stopped {e₁ e₂ e : Option AgentExn} {t₁ t : ServiceState Config} (hstart : a.startService env svc t₀ = (none, t₁))
      (hstop : a.stopService env svc e₁ t₁ = (e₂, t)) (hpasses : env.Passes e₂ e) : Ran a env svc t₀ e t

theorem Ran.passes {t₀ t : ServiceState Config} {e e' : Option AgentExn} (h : Ran a env svc t₀ e t)
    (hpasses : env.Passes e e') : Ran a env svc t₀ e' t := by
  have houtside : env.RaisedOutside e → env.RaisedOutside e' := by
    intro hraised
    rcases hpasses with rfl | h'
    · exact hraised
    · exact h'
  cases h with
  | untouched hraised => exact .untouched (houtside hraised)
  | failed hraised hstart => exact .failed (houtside hraised) hstart
  | stopped hstart hstop hp => exact .stopped hstart hstop (hp.trans hpasses)

theorem services_withStack {l : List Service} (hsvc : svc ∉ l)
    {body : AgentHost Service Config → Option AgentExn × AgentHost Service Config}
    (hbody : ∀ h, (body h).2.services svc = h.services svc) {h : AgentHost Service Config} :
    (withStack (l.map (a.serviceContext env)) body h).2.services svc = h.services svc := by
  refine withStack_keeps (I := fun h' => h'.services svc = h.services svc)
    (fun h' hh' => (hbody h').trans hh') ?_ ?_ rfl
  · intro c hc h' hh'
    obtain ⟨d, hd, rfl⟩ := List.mem_map.mp hc
    have hne : svc ≠ d := fun heq => hsvc (heq ▸ hd)
    exact (Function.update_of_ne hne ..).trans hh'
  · intro c hc e h' hh'
    obtain ⟨d, hd, rfl⟩ := List.mem_map.mp hc
    have hne : svc ≠ d := fun heq => hsvc (heq ▸ hd)
    exact (Function.update_of_ne hne ..).trans hh'

theorem ran_services {l : List Service} (hl : l.Nodup)
    {body : AgentHost Service Config → Option AgentExn × AgentHost Service Config}
    (hbody : ∀ h, (body h).2.services = h.services) {h h' : AgentHost Service Config} {e : Option AgentExn}
    (hrun : withStack (l.map (a.serviceContext env)) body h = (e, h')) :
    ∀ svc ∈ l, Ran a env svc (h.services svc) e (h'.services svc) := by
  induction l generalizing h h' e with
  | nil => exact fun svc hsvc => absurd hsvc List.not_mem_nil
  | cons c rest ih =>
    obtain ⟨hc, hrest⟩ := List.nodup_cons.mp hl
    rw [List.map_cons, withStack_cons] at hrun
    rcases hx : (a.serviceContext env c).enter h with ⟨x, h₁⟩
    have hother : ∀ svc, svc ≠ c → h₁.services svc = h.services svc := by
      intro svc hne
      rw [← (Prod.mk.inj hx).2]
      exact Function.update_of_ne hne ..
    have hself : h₁.services c = (a.startService env c (h.services c)).2 := by
      rw [← (Prod.mk.inj hx).2]
      exact Function.update_self ..
    cases x with
    | some x =>
      rw [within_of_raised hx] at hrun
      obtain ⟨rfl, rfl⟩ := Prod.mk.inj hrun
      have houtside := plain_service.enter h x h₁ hx
      intro svc hsvc
      by_cases hne : svc = c
      · subst hne
        obtain ⟨r, hr, -⟩ := Option.map_eq_some_iff.mp (Prod.mk.inj hx).1
        exact .failed houtside (Prod.ext hr hself.symm)
      · rw [hother svc hne]
        exact .untouched houtside
    | none =>
      rw [within_of_entered hx] at hrun
      set r := withStack (rest.map (a.serviceContext env)) body h₁ with hr
      have hkept : r.2.services c = h₁.services c := services_withStack hc fun h => congrFun (hbody h) c
      have hexit : (a.serviceContext env c).exit r.1 r.2 = (e, h') := hrun
      have hpasses : env.Passes r.1 e := by
        have hplain : env.Plain (a.serviceContext env c) := plain_service
        have := hplain.exit r.1 r.2
        rwa [hexit] at this
      intro svc hsvc
      by_cases hne : svc = c
      · subst hne
        have hstart : a.startService env svc (h.services svc) = (none, h₁.services svc) :=
          Prod.ext (Option.map_eq_none_iff.mp (Prod.mk.inj hx).1) hself.symm
        obtain ⟨he, hh'⟩ := Prod.mk.inj hexit
        have hstop : a.stopService env svc r.1 (h₁.services svc) = (e, h'.services svc) := by
          rw [← hkept, ← hh']
          exact Prod.ext he (Function.update_self svc _ r.2.services).symm
        exact .stopped hstart hstop (.inl rfl)
      · have hran := ih hrest hr.symm svc ((List.mem_cons.mp hsvc).resolve_left hne)
        rw [hother svc hne] at hran
        have hlast : h'.services svc = r.2.services svc := by
          rw [← (Prod.mk.inj hexit).2]
          exact Function.update_of_ne hne ..
        rw [hlast]
        exact hran.passes hpasses

/-! ### A session -/

theorem ran_within {c : Context (AgentHost Service Config) AgentExn} (hc : env.Plain c)
    (henter : ∀ h, (c.enter h).2.services = h.services) (hexit : ∀ e h, (c.exit e h).2.services = h.services)
    {body : AgentHost Service Config → Option AgentExn × AgentHost Service Config} {l : List Service}
    (hbody : ∀ h, ∀ svc ∈ l, Ran a env svc (h.services svc) (body h).1 ((body h).2.services svc))
    (h : AgentHost Service Config) :
    ∀ svc ∈ l, Ran a env svc (h.services svc) (c.within body h).1 ((c.within body h).2.services svc) := by
  intro svc hsvc
  rcases hx : c.enter h with ⟨x, h₁⟩
  have hkept : h₁.services = h.services := by
    have := henter h
    rwa [hx] at this
  cases x with
  | some x =>
    rw [within_of_raised hx, hkept]
    exact .untouched (hc.enter h x h₁ hx)
  | none =>
    rw [within_of_entered hx, hexit, ← hkept]
    exact (hbody h₁ svc hsvc).passes (hc.exit _ _)

/-- The contexts of the services and of the agent. -/
def inner (a : SpinAgent Service Config) (env : SpinEnv Service Config) :
    AgentHost Service Config → Option AgentExn × AgentHost Service Config :=
  withStack (a.services.map (a.serviceContext env)) (withStack [a.onStartedContext env] fun h => (env.loop, h))

theorem spin_eq (h : AgentHost Service Config) (hsupports : env.supportsAgent = true) :
    a.spin env h = env.pidFileContext.within (env.participantContext.within (a.inner env)) h := by
  have hinner : withStack (a.services.map (a.serviceContext env) ++ [a.onStartedContext env]) (fun h => (env.loop, h)) =
      a.inner env := funext fun h => withStack_append ..
  rw [spin, if_pos hsupports, withStack_cons]
  unfold Context.within
  simp only [withStack_cons, hinner]
  rfl

theorem ran_inner (h : AgentHost Service Config) : ∀ svc ∈ a.services,
    Ran a env svc (h.services svc) (a.inner env h).1 ((a.inner env h).2.services svc) :=
  ran_services a.nodup (fun _ => services_onStarted) rfl

theorem ran_spin {h h' : AgentHost Service Config} {e : Option AgentExn} (hrun : a.spin env h = (e, h')) :
    ∀ svc ∈ a.services, Ran a env svc (h.services svc) e (h'.services svc) := by
  by_cases hsupports : env.supportsAgent = true
  · have hparticipant := ran_within (plain_participant : env.Plain _) services_participant.1 services_participant.2
      (ran_inner (a := a))
    have hran := ran_within plain_pidFile services_pidFile.1 services_pidFile.2 hparticipant h
    rwa [← spin_eq h hsupports, hrun] at hran
  · rw [spin, if_neg hsupports] at hrun
    obtain ⟨rfl, rfl⟩ := Prod.mk.inj hrun
    exact fun svc _ => .untouched ⟨_, rfl, fun _ heq => by cases heq⟩

theorem released_spin {h h' : AgentHost Service Config} {e : Option AgentExn} (hh : Released h)
    (hrun : a.spin env h = (e, h')) :
    (h'.pidFile = true → env.LeavesPidFile) ∧ (h'.participant = true → env.LeavesParticipant) := by
  by_cases hsupports : env.supportsAgent = true
  · rw [spin_eq h hsupports] at hrun
    rw [show h' = _ from (congrArg Prod.snd hrun).symm]
    refine ⟨pidFile_within, fun hleft => ?_⟩
    rcases participant_pidFile hleft with hopen | ⟨h₁, hopen⟩
    · rw [hh.2] at hopen
      cases hopen
    · exact participant_within hopen
  · rw [spin, if_neg hsupports] at hrun
    obtain ⟨rfl, rfl⟩ := Prod.mk.inj hrun
    refine ⟨fun hleft => ?_, fun hleft => ?_⟩
    · rw [hh.1] at hleft
      cases hleft
    · rw [hh.2] at hleft
      cases hleft

omit [DecidableEq Config] [DecidableEq Service] in
theorem exit_onStarted_clean {h h' : AgentHost Service Config} {e e' : Option AgentExn} (hclean : env.Clean e')
    (hexit : (a.onStartedContext env).exit e h = (e', h')) : h' = { h with agentMarker := none } := by
  unfold onStartedContext at hexit
  cases hr : env.offline with
  | none =>
    simp only [hr] at hexit
    exact (Prod.mk.inj hexit).2.symm
  | some r =>
    simp only [hr] at hexit
    rw [← (Prod.mk.inj hexit).1] at hclean
    exact absurd (raisedOutside (·.offline) hr) hclean.not_raisedOutside

/-- If nothing apart from the loop raised, the PID file and the participant are released, and the agent's own unit is no
longer marked. -/
theorem clean_spin {h h' : AgentHost Service Config} {e : Option AgentExn} (hclean : env.Clean e)
    (hrun : a.spin env h = (e, h')) : e = env.loop ∧ Released h' ∧ h'.agentMarker = none := by
  by_cases hsupports : env.supportsAgent = true
  · rw [spin_eq h hsupports] at hrun
    obtain ⟨h₁, h₂, -, hrun, hexit⟩ := plain_pidFile.within_clean hclean hrun
    obtain ⟨h₃, h₄, -, hrun, hexit'⟩ := plain_participant.within_clean hclean hrun
    obtain ⟨h₅, h₆, hrun, hkept⟩ := withStack_clean AgentHost.agentMarker
      (by
        intro c hc
        obtain ⟨svc, -, rfl⟩ := List.mem_map.mp hc
        exact plain_service)
      (by
        intro c hc e h
        obtain ⟨svc, -, rfl⟩ := List.mem_map.mp hc
        rfl) hclean hrun
    rw [withStack_cons] at hrun
    obtain ⟨h₇, h₈, -, hloop, hexit''⟩ := plain_onStarted.within_clean hclean hrun
    refine ⟨(Prod.mk.inj hloop).1.symm, ?_⟩
    rw [exit_pidFile_clean hclean hexit, exit_participant_clean hclean hexit']
    refine ⟨⟨rfl, rfl⟩, ?_⟩
    show h₄.agentMarker = none
    rw [hkept, exit_onStarted_clean hclean hexit'']
  · rw [spin, if_neg hsupports] at hrun
    obtain ⟨rfl, rfl⟩ := Prod.mk.inj hrun
    exact absurd ⟨_, rfl, fun _ heq => by cases heq⟩ hclean.not_raisedOutside

/-! ### What becomes of a service -/

theorem Ran.of_clean {t₀ t : ServiceState Config} {e : Option AgentExn} (hran : Ran a env svc t₀ e t)
    (hclean : env.Clean e) : ∃ t₁, a.startService env svc t₀ = (none, t₁) ∧ a.stopService env svc e t₁ = (e, t) := by
  cases hran with
  | untouched hraised => exact absurd hraised hclean.not_raisedOutside
  | failed hraised _ => exact absurd hraised hclean.not_raisedOutside
  | @stopped e₁ e₂ _ t₁ _ hstart hstop hpasses =>
    obtain rfl := hclean.eq_of_passes hpasses
    refine ⟨t₁, hstart, ?_⟩
    -- the exit did not raise, so that it was given the exception it passed on
    have hplain : env.Plain (a.serviceContext env svc) := plain_service
    have hexit := hplain.exit e₁ ⟨false, false, none, fun _ => t₁⟩
    have hfst : ((a.serviceContext env svc).exit e₁ ⟨false, false, none, fun _ => t₁⟩).1 = e₂ :=
      congrArg Prod.fst hstop
    rw [hfst] at hexit
    rw [← hclean.eq_of_passes hexit]
    rwa [hclean.eq_of_passes hexit] at hstop ⊢

/-- Whether a service is given back to its unit. -/
def GivesBack (a : SpinAgent Service Config) (env : SpinEnv Service Config) (svc : Service) (e : Option AgentExn) :
    Prop :=
  assertStopped e = false ∧ env.reloading = false ∧ a.static svc = true ∧ svc ∈ a.initialActiveStaticServices

omit [DecidableEq Config] in
theorem stopService_of_givesBack {t t' : ServiceState Config} {e e' : Option AgentExn} (h : GivesBack a env svc e)
    (hclean : env.Clean e') (hstop : a.stopService env svc e t = (e', t')) :
    t' = { t with marker := some a.registryId } := by
  unfold stopService at hstop
  rw [if_pos (show _ ∧ _ ∧ _ ∧ _ from h)] at hstop
  cases hr : (env.service svc).giveBack with
  | none =>
    simp only [hr, writeMarker] at hstop
    exact (Prod.mk.inj hstop).2.symm
  | some r =>
    simp only [hr, writeMarker] at hstop
    rw [← (Prod.mk.inj hstop).1] at hclean
    exact absurd (raisedOutside (fun hquiet => (hquiet.service svc).giveBack) hr) hclean.not_raisedOutside

omit [DecidableEq Config] in
theorem stopService_of_stops {t t' : ServiceState Config} {e e' : Option AgentExn} (h : ¬ GivesBack a env svc e)
    (hstop : a.stopService env svc e t = (e', t')) :
    (t'.up = true → ∃ r, (env.service svc).stop = some (r, true)) ∧
      (a.static svc = true → t'.marker ≠ none → ∃ r, (env.service svc).unmark = some (r, true)) := by
  have hup : ∀ {up : Bool}, (runnableStop env svc e).2 = up → up = true →
      ∃ r, (env.service svc).stop = some (r, true) := by
    rintro up hsnd rfl
    unfold runnableStop at hsnd
    cases hr : (env.service svc).stop with
    | none =>
      rw [hr] at hsnd
      cases hsnd
    | some r =>
      rw [hr] at hsnd
      exact ⟨r.1, congrArg (fun up => some (r.1, up)) hsnd⟩
  unfold stopService at hstop
  rw [if_neg (show ¬ (_ ∧ _ ∧ _ ∧ _) from h)] at hstop
  by_cases hstatic : a.static svc = true
  · rw [if_pos hstatic] at hstop
    cases hr : (env.service svc).unmark with
    | none =>
      simp only [hr, deleteMarker] at hstop
      obtain ⟨-, rfl⟩ := Prod.mk.inj hstop
      exact ⟨hup rfl, fun _ hne => absurd rfl hne⟩
    | some r =>
      simp only [hr, deleteMarker] at hstop
      obtain ⟨-, rfl⟩ := Prod.mk.inj hstop
      refine ⟨hup rfl, fun _ hne => ⟨r.1, ?_⟩⟩
      cases hleft : r.2 with
      | true => exact congrArg (fun left => some (r.1, left)) hleft
      | false => exact absurd (by rw [hleft]; rfl) hne
  · rw [if_neg hstatic] at hstop
    obtain ⟨-, rfl⟩ := Prod.mk.inj hstop
    exact ⟨hup rfl, fun hstatic' => absurd hstatic' hstatic⟩

omit [DecidableEq Config] in
theorem stopService_clean {t t' : ServiceState Config} {e e' : Option AgentExn} (h : ¬ GivesBack a env svc e)
    (hclean : env.Clean e') (hstop : a.stopService env svc e t = (e', t')) :
    t'.up = false ∧ (a.static svc = true → t'.marker = none) := by
  obtain ⟨hup, hmarker⟩ := stopService_of_stops h hstop
  unfold stopService at hstop
  rw [if_neg (show ¬ (_ ∧ _ ∧ _ ∧ _) from h)] at hstop
  have hstopped : env.Clean (runnableStop env svc e).1 → t'.up = false := by
    intro hclean
    refine Bool.eq_false_iff.mpr fun hleft => ?_
    obtain ⟨r, hr⟩ := hup hleft
    unfold runnableStop at hclean
    rw [hr] at hclean
    exact hclean.not_raisedOutside (raisedOutside (fun hquiet => (hquiet.service svc).stop) hr)
  by_cases hstatic : a.static svc = true
  · rw [if_pos hstatic] at hstop
    cases hr : (env.service svc).unmark with
    | none =>
      simp only [hr, deleteMarker] at hstop
      refine ⟨hstopped ((Prod.mk.inj hstop).1 ▸ hclean), fun hstatic => ?_⟩
      rw [← (Prod.mk.inj hstop).2]
    | some r =>
      simp only [hr, deleteMarker] at hstop
      rw [← (Prod.mk.inj hstop).1] at hclean
      exact absurd (raisedOutside (fun hquiet => (hquiet.service svc).unmark) hr) hclean.not_raisedOutside
  · rw [if_neg hstatic] at hstop
    exact ⟨hstopped ((Prod.mk.inj hstop).1 ▸ hclean), fun hstatic' => absurd hstatic' hstatic⟩

/-- Which services an agent finds up: those whose unit started them, which were active before the first agent. -/
structure Ready (a : SpinAgent Service Config) (h : AgentHost Service Config) : Prop where
  released : Released h
  static : ∀ svc ∈ a.initialActiveStaticServices, a.static svc = true
  up : ∀ svc ∈ a.services, (h.services svc).up = true ↔ a.static svc = true ∧ (h.services svc).marker ≠ none
  initial : ∀ svc ∈ a.services, a.static svc = true → (h.services svc).marker ≠ none →
    svc ∈ a.initialActiveStaticServices

/-- Starting, marking or stopping the service failed and left it up. -/
def LeavesUp (env : SpinEnv Service Config) (svc : Service) : Prop :=
  ∃ r, (env.service svc).start = some (r, true) ∨ (env.service svc).stop = some (r, true) ∨
    ∃ marker, (env.service svc).markStarted = some (r, marker)

/-- Writing or deleting the marker of the service failed and left one. -/
def LeavesMarked (env : SpinEnv Service Config) (svc : Service) : Prop :=
  ∃ r, (env.service svc).unmark = some (r, true) ∨ ∃ config, (env.service svc).markStarted = some (r, some config)

omit [DecidableEq Config] [DecidableEq Service] in
theorem Ready.not_initial {h : AgentHost Service Config} (hready : a.Ready h) (hsvc : svc ∈ a.services)
    (hinitial : svc ∉ a.initialActiveStaticServices) :
    (a.static svc = true → (h.services svc).marker = none) ∧ (h.services svc).up = false := by
  have hmarker : a.static svc = true → (h.services svc).marker = none := fun hstatic => by
    by_contra hne
    exact hinitial (hready.initial svc hsvc hstatic hne)
  refine ⟨hmarker, Bool.eq_false_iff.mpr fun hup => ?_⟩
  obtain ⟨hstatic, hne⟩ := (hready.up svc hsvc).mp hup
  exact hne (hmarker hstatic)

/-- A service that no unit had started is neither marked nor up afterwards, unless an operation on it failed. -/
theorem Ran.not_initial {t₀ t : ServiceState Config} {e : Option AgentExn} (hran : Ran a env svc t₀ e t)
    (hsvc : svc ∉ a.initialActiveStaticServices) (hmarker : a.static svc = true → t₀.marker = none)
    (hup : t₀.up = false) :
    (a.static svc = true → t.marker ≠ none → LeavesMarked env svc) ∧ (t.up = true → LeavesUp env svc) := by
  cases hran with
  | untouched _ =>
    refine ⟨fun hstatic hne => absurd (hmarker hstatic) hne, fun h => ?_⟩
    rw [hup] at h
    cases h
  | @failed _ r _ _ hstart =>
    unfold startService at hstart
    split_ifs at hstart with hrunnable hmarked hsame hstatic
    · cases hstart
    · exact absurd (hmarker hmarked.1) hmarked.2
    · exact absurd (hmarker hmarked.1) hmarked.2
    · cases hr : (env.service svc).start with
      | some r =>
        rw [hr] at hstart
        obtain ⟨-, rfl⟩ := Prod.mk.inj hstart
        exact ⟨fun hstatic hne => absurd (hmarker hstatic) hne,
          fun h => ⟨r.1, .inl (hr.trans (congrArg (fun up => some (r.1, up)) h))⟩⟩
      | none =>
        rw [hr] at hstart
        obtain ⟨hraised, rfl⟩ := Prod.mk.inj hstart
        have hmark := writeMarker_raised hraised
        refine ⟨fun _ hne => ?_, fun _ => ⟨_, .inr (.inr ⟨_, hmark⟩)⟩⟩
        obtain ⟨config, hconfig⟩ := Option.ne_none_iff_exists'.mp hne
        exact ⟨_, .inr ⟨config, hmark.trans (congrArg (fun marker => some (_, marker)) hconfig)⟩⟩
    · cases hr : (env.service svc).start with
      | some r =>
        rw [hr] at hstart
        obtain ⟨-, rfl⟩ := Prod.mk.inj hstart
        exact ⟨fun hstatic hne => absurd (hmarker hstatic) hne,
          fun h => ⟨r.1, .inl (hr.trans (congrArg (fun up => some (r.1, up)) h))⟩⟩
      | none =>
        rw [hr] at hstart
        cases hstart
  | @stopped e₁ _ _ t₁ _ _ hstop _ =>
    obtain ⟨hup', hmarker'⟩ := stopService_of_stops (fun h : GivesBack a env svc e₁ => hsvc h.2.2.2) hstop
    refine ⟨fun hstatic hne => ?_, fun h => ?_⟩
    · obtain ⟨r, hr⟩ := hmarker' hstatic hne
      exact ⟨r, .inl hr⟩
    · obtain ⟨r, hr⟩ := hup' h
      exact ⟨r, .inr (.inl hr)⟩

omit [DecidableEq Service] in
theorem up_startService {t₀ t : ServiceState Config} (hrunnable : a.runnable svc = true)
    (hup : a.static svc = true → t₀.marker ≠ none → t₀.up = true)
    (hstart : a.startService env svc t₀ = (none, t)) : t.up = true := by
  unfold startService at hstart
  split_ifs at hstart with hnot hmarked hsame hstatic
  · rw [hrunnable] at hnot
    cases hnot
  · rw [← (Prod.mk.inj hstart).2]
    exact hup hmarked.1 hmarked.2
  · cases hstart
  · cases hr : (env.service svc).start with
    | none =>
      rw [hr] at hstart
      rw [← (Prod.mk.inj hstart).2]
    | some r =>
      rw [hr] at hstart
      cases hstart
  · cases hr : (env.service svc).start with
    | none =>
      rw [hr] at hstart
      rw [← (Prod.mk.inj hstart).2]
    | some r =>
      rw [hr] at hstart
      cases hstart

/-- Services that were active at first are given back to their units, all others are stopped. -/
structure HandedBack (a : SpinAgent Service Config) (registryId : Config) (h : AgentHost Service Config) : Prop where
  agentMarker : h.agentMarker = none
  givenBack : ∀ svc ∈ a.services, svc ∈ a.initialActiveStaticServices →
    (h.services svc).marker = some registryId ∧ (a.runnable svc = true → (h.services svc).up = true)
  stopped : ∀ svc ∈ a.services, svc ∉ a.initialActiveStaticServices → (h.services svc).up = false

theorem session_clean {h h' : AgentHost Service Config} {e : Option AgentExn} (hready : a.Ready h)
    (hclean : env.Clean e) (hrun : a.spin env h = (e, h')) :
    (assertStopped e = false → HandedBack a a.registryId h') ∧ (assertStopped e = true → a.Ready h') := by
  obtain ⟨hloop, hreleased, hagent⟩ := clean_spin hclean hrun
  have hran := ran_spin hrun
  have hstops : ∀ svc ∈ a.services, ¬ GivesBack a env svc e → (h'.services svc).up = false ∧
      (a.static svc = true → (h'.services svc).marker = none) := by
    intro svc hsvc hnot
    obtain ⟨t₁, -, hstop⟩ := (hran svc hsvc).of_clean hclean
    exact stopService_clean hnot hclean hstop
  constructor
  · intro hassert
    have hreloading : env.reloading = false := by
      unfold reloading
      rw [← hloop]
      rcases hclean with rfl | ⟨newAgent, rfl⟩ | ⟨rfl, -⟩
      · rfl
      · cases hassert
      · rfl
    refine ⟨hagent, fun svc hsvc hinitial => ?_, fun svc hsvc hinitial => (hstops svc hsvc fun h => hinitial h.2.2.2).1⟩
    obtain ⟨t₁, hstart, hstop⟩ := (hran svc hsvc).of_clean hclean
    have hup : a.runnable svc = true → t₁.up = true := fun hrunnable => up_startService hrunnable
      (fun hstatic hmarker => (hready.up svc hsvc).mpr ⟨hstatic, hmarker⟩) hstart
    rw [stopService_of_givesBack ⟨hassert, hreloading, hready.static svc hinitial, hinitial⟩ hclean hstop]
    exact ⟨rfl, hup⟩
  · intro hassert
    have hnot : ∀ svc, ¬ GivesBack a env svc e := fun svc h => by
      rw [h.1] at hassert
      cases hassert
    refine ⟨hreleased, hready.static, fun svc hsvc => ?_, fun svc hsvc hstatic hmarker => ?_⟩
    · obtain ⟨hup, hmarker⟩ := hstops svc hsvc (hnot svc)
      exact iff_of_false (fun h => by rw [hup] at h; cases h) fun h => h.2 (hmarker h.1)
    · exact absurd ((hstops svc hsvc (hnot svc)).2 hstatic) hmarker

/-- What is left behind, and by which failing operation. -/
structure LeavesOnly (a : SpinAgent Service Config) (envs : List (SpinEnv Service Config))
    (h : AgentHost Service Config) : Prop where
  pidFile : h.pidFile = true → ∃ env ∈ envs, LeavesPidFile env
  participant : h.participant = true → ∃ env ∈ envs, LeavesParticipant env
  marked : ∀ svc ∈ a.services, svc ∉ a.initialActiveStaticServices → a.static svc = true →
    (h.services svc).marker ≠ none → ∃ env ∈ envs, LeavesMarked env svc
  up : ∀ svc ∈ a.services, svc ∉ a.initialActiveStaticServices → (h.services svc).up = true →
    ∃ env ∈ envs, LeavesUp env svc

omit [DecidableEq Config] [DecidableEq Service] in
theorem Ready.leavesOnly {h : AgentHost Service Config} (hready : a.Ready h) (envs : List (SpinEnv Service Config)) :
    LeavesOnly a envs h where
  pidFile hleft := by
    rw [hready.released.1] at hleft
    cases hleft
  participant hleft := by
    rw [hready.released.2] at hleft
    cases hleft
  marked svc hsvc hinitial hstatic hne := absurd ((hready.not_initial hsvc hinitial).1 hstatic) hne
  up svc hsvc hinitial hup := by
    rw [(hready.not_initial hsvc hinitial).2] at hup
    cases hup

omit [DecidableEq Config] [DecidableEq Service] in
theorem LeavesOnly.cons {envs : List (SpinEnv Service Config)} {h : AgentHost Service Config}
    (hleft : LeavesOnly a envs h) (env : SpinEnv Service Config) : LeavesOnly a (env :: envs) h := by
  have htail : ∀ {P : SpinEnv Service Config → Prop}, (∃ env ∈ envs, P env) → ∃ env' ∈ env :: envs, P env' :=
    fun ⟨env', henv', h⟩ => ⟨env', .tail _ henv', h⟩
  exact ⟨fun h => htail (hleft.pidFile h), fun h => htail (hleft.participant h),
    fun svc hsvc hinitial hstatic h => htail (hleft.marked svc hsvc hinitial hstatic h),
    fun svc hsvc hinitial h => htail (hleft.up svc hsvc hinitial h)⟩

theorem leavesOnly_spin {h h' : AgentHost Service Config} {e : Option AgentExn} (hready : a.Ready h)
    (hspin : a.spin env h = (e, h')) (envs : List (SpinEnv Service Config)) : LeavesOnly a (env :: envs) h' := by
  obtain ⟨hpidFile, hparticipant⟩ := released_spin hready.released hspin
  have hleft : ∀ svc ∈ a.services, svc ∉ a.initialActiveStaticServices → _ := fun svc hsvc hinitial =>
    (ran_spin hspin svc hsvc).not_initial hinitial (hready.not_initial hsvc hinitial).1
      (hready.not_initial hsvc hinitial).2
  exact ⟨fun h => ⟨env, .head _, hpidFile h⟩, fun h => ⟨env, .head _, hparticipant h⟩,
    fun svc hsvc hinitial hstatic h => ⟨env, .head _, (hleft svc hsvc hinitial).1 hstatic h⟩,
    fun svc hsvc hinitial h => ⟨env, .head _, (hleft svc hsvc hinitial).2 h⟩⟩

/-- A chain of agents leaves behind only what a failing operation left, and gives the services back if the last loop
returned. -/
theorem run_leavesOnly {envs : List (SpinEnv Service Config)} {h h' : AgentHost Service Config}
    {e : Option AgentExn} {registryId : Config} (hready : a.Ready h) (hrun : a.run envs h = (e, registryId, h')) :
    LeavesOnly a envs h' ∧
      (e = none ∨ (e = some (.raised .keyboardInterrupt) ∧ ∀ env ∈ envs, env.NoInterrupt) →
        HandedBack a registryId h') := by
  induction envs generalizing a h with
  | nil =>
    obtain ⟨rfl, hrest⟩ := Prod.mk.inj hrun
    obtain ⟨rfl, rfl⟩ := Prod.mk.inj hrest
    refine ⟨hready.leavesOnly _, fun h => ?_⟩
    rcases h with h | ⟨h, -⟩ <;> cases h
  | cons env rest ih =>
    rcases hspin : a.spin env h with ⟨e₁, h₁⟩
    unfold run at hrun
    rw [hspin] at hrun
    by_cases hreload : ∃ newAgent, e₁ = some (.agentReload newAgent)
    · obtain ⟨newAgent, rfl⟩ := hreload
      have hready₁ := (session_clean hready (.inr (.inl ⟨newAgent, rfl⟩)) hspin).2 rfl
      cases hr : env.reload with
      | some r =>
        rw [hr] at hrun
        obtain ⟨rfl, hrest⟩ := Prod.mk.inj hrun
        obtain ⟨rfl, rfl⟩ := Prod.mk.inj hrest
        refine ⟨hready₁.leavesOnly _, fun h => ?_⟩
        rcases h with h | ⟨h, hquiet⟩
        · cases h
        · cases h
          exact absurd hr (hquiet env (.head _)).reload
      | none =>
        rw [hr] at hrun
        obtain ⟨hleft, hback⟩ :=
          @ih { a with registryId := env.newRegistryId } h₁ ⟨hready₁.1, hready₁.2, hready₁.3, hready₁.4⟩ hrun
        have hleft : LeavesOnly a rest h' := ⟨hleft.pidFile, hleft.participant, hleft.marked, hleft.up⟩
        refine ⟨hleft.cons env, fun h => ?_⟩
        obtain ⟨hagent, hgiven, hstopped⟩ :=
          hback (h.imp_right fun h => ⟨h.1, fun env' henv' => h.2 env' (.tail _ henv')⟩)
        exact ⟨hagent, hgiven, hstopped⟩
    · have hrun : (e₁, a.registryId, h₁) = (e, registryId, h') := by
        rw [← hrun]
        cases e₁ with
        | none => rfl
        | some x =>
          cases x with
          | raised r => rfl
          | agentReload newAgent => exact absurd ⟨newAgent, rfl⟩ hreload
      obtain ⟨rfl, hrest⟩ := Prod.mk.inj hrun
      obtain ⟨rfl, rfl⟩ := Prod.mk.inj hrest
      refine ⟨leavesOnly_spin hready hspin rest, fun h => ?_⟩
      rcases h with rfl | ⟨rfl, hquiet⟩
      · exact (session_clean hready (.inl rfl) hspin).1 rfl
      · exact (session_clean hready (.inr (.inr ⟨rfl, hquiet env (.head _)⟩)) hspin).1 rfl

/-- In every chain of agents, each loaded again after the one before asked for it, the process ends with neither the PID
file nor the middleware, unless an operation on them failed, and no service is left marked or up that no unit had
started, unless an operation on it failed. If the last loop returned, or only loops were interrupted, all services that
were active at first are given back, marked with the configuration of the last agent. -/
theorem run_hands_back {envs : List (SpinEnv Service Config)} {h h' : AgentHost Service Config}
    {e : Option AgentExn} {registryId : Config} (hready : a.Ready h) (hrun : a.run envs h = (e, registryId, h')) :
    ((h'.pidFile = true → ∃ env ∈ envs, LeavesPidFile env) ∧
        (h'.participant = true → ∃ env ∈ envs, LeavesParticipant env)) ∧
      (∀ svc ∈ a.services, svc ∉ a.initialActiveStaticServices →
        (a.static svc = true → (h'.services svc).marker ≠ none → ∃ env ∈ envs, LeavesMarked env svc) ∧
          ((h'.services svc).up = true → ∃ env ∈ envs, LeavesUp env svc)) ∧
      (e = none ∨ (e = some (.raised .keyboardInterrupt) ∧ ∀ env ∈ envs, env.NoInterrupt) →
        HandedBack a registryId h') := by
  obtain ⟨hleft, hback⟩ := run_leavesOnly hready hrun
  exact ⟨⟨hleft.pidFile, hleft.participant⟩, fun svc hsvc hinitial =>
    ⟨hleft.marked svc hsvc hinitial, hleft.up svc hsvc hinitial⟩, hback⟩

/-- The network, the monitor of the routes, and the router, of which the first was started by its unit. -/
def threeServices : SpinAgent (Fin 3) ℕ where
  services := [0, 1, 2]
  nodup := by decide
  static svc := svc ≠ 1
  runnable _ := true
  enableSystemd := true
  initialActiveStaticServices := {0}
  registryId := 1

def threeServicesHost : AgentHost (Fin 3) ℕ :=
  ⟨false, false, none, fun svc => if svc = 0 then ⟨some 1, true⟩ else ⟨none, false⟩⟩

def quietService : ServiceEnv ℕ := ⟨none, none, none, none, none, none⟩

def quietEnv (loop : SpinEnd) (newRegistryId : ℕ) : SpinEnv (Fin 3) ℕ :=
  ⟨true, none, none, none, none, fun _ => quietService, none, none, loop, none, newRegistryId⟩

theorem ready_threeServices : threeServices.Ready threeServicesHost :=
  ⟨⟨rfl, rfl⟩, by decide, by decide, by decide⟩

/-- The agent is loaded again with another configuration, and then ends. -/
theorem run_hands_back_reloaded : ∃ h',
    threeServices.run [quietEnv (some (.agentReload true)) 2, quietEnv none 3] threeServicesHost = (none, 2, h') ∧
      threeServices.HandedBack 2 h' := by
  obtain ⟨h', hrun⟩ : ∃ h',
      threeServices.run [quietEnv (some (.agentReload true)) 2, quietEnv none 3] threeServicesHost = (none, 2, h') :=
    ⟨_, rfl⟩
  exact ⟨h', hrun, (run_hands_back ready_threeServices hrun).2.2 (.inl rfl)⟩

end SpinAgent

end Uno
