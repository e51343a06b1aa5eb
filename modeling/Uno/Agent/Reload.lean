import Uno.Registry.Import

/-!
# How the agent of a cell takes over a configuration

An agent that receives a package with another config id leaves its loop and installs the package over its own files, one
part after the other (`Agent.reload`). It may be killed at every point in between, and be started again with the files
as they are then.

An agent can be started again unless it was killed right after `id.yaml` was written and before the agent's own record
was (`cannot_start_iff`).
-/

namespace Uno

/-- The package of a cell's agent. -/
structure AgentPackage where
  /-- The cell in `id.yaml`. -/
  owner : ℕ
  configId : String
  database : CellPackage

/-- The files of an agent. -/
structure AgentRoot where
  /-- `id.yaml`. -/
  owner : ℕ
  configId : String
  /-- The config id of the registry's record in the database. -/
  registryId : String
  database : CellPackage
  /-- The config ids of the cell's records in the table of agents. -/
  agents : List String
  /-- The package whose identity keys wait in `.id-import`. -/
  idImport : Option String
  /-- The package whose identity keys were imported last. -/
  idKeys : String

/-- The steps of `Agent.reload`, in their order. -/
inductive ReloadStage where
  | importing
  | extractingKeys
  | extractingMarker
  | asserting
  | opening
  | importingKeys
  deriving DecidableEq

/-- Where the process of an agent is. -/
inductive AgentPoint where
  | stopped
  /-- The agent is loaded, and its contexts are being entered. -/
  | starting (configId registryId : String)
  | spinning (configId registryId : String) (reloadAgent : Option AgentPackage)
  | reloading (stage : ReloadStage) (package : AgentPackage)

structure CellAgent where
  root : AgentRoot
  point : AgentPoint

inductive CellAct where
  | start
  /-- The next step of the process. -/
  | progress
  /-- A sample of the BACKBONE topic, whose package cannot be installed without `package`. -/
  | data (registryId : String) (package : Option AgentPackage)
  /-- The process ends, wherever it is. -/
  | kill

/-- A restarted agent receives a sample with a package, and is not disturbed while it takes it over. -/
def AgentPackage.takeOver (package : AgentPackage) (registryId : String) : List CellAct :=
  [.kill, .start, .progress, .data registryId (some package)] ++ List.replicate 8 .progress

namespace AgentRoot

/-- `Agent.install_package`. -/
def install (package : AgentPackage) : AgentRoot where
  owner := package.owner
  configId := package.configId
  registryId := package.configId
  database := package.database
  agents := [package.configId]
  idImport := none
  idKeys := package.configId

/-- There is a record for the config id in `id.yaml`. -/
def Startable (root : AgentRoot) : Prop := root.configId ∈ root.agents

/-- `Agent.open`: the config ids of the agent and of the registry in its database. -/
def «open» (root : AgentRoot) : Result (String × String) :=
  if root.configId ∈ root.agents then .ok (root.configId, root.registryId) else .error .stopIteration

/-- `Database.import_other`, a transaction. -/
def importOther (orders : KeyOrders) (root : AgentRoot) (package : AgentPackage) : Result AgentRoot := do
  let database ← root.database.importOther orders package.database
  .ok { root with database := database, registryId := package.configId }

/-- The record that `_assert_agent` makes if there is none. -/
def assertAgent (root : AgentRoot) : AgentRoot :=
  if root.configId ∈ root.agents then root else { root with agents := root.agents ++ [root.configId] }

/-- `_finish_import_id_db_keys`. -/
def finishImportIdDbKeys (root : AgentRoot) : AgentRoot :=
  match root.idImport with
  | none => root
  | some configId => { root with idImport := none, idKeys := configId }

end AgentRoot

/-- `_on_agent_config_received`, for a sample that is not of the current configuration. -/
def onAgentConfigReceived (configId : String) (reloadAgent package : Option AgentPackage) : Option AgentPackage :=
  match package with
  | none => reloadAgent
  | some updated => if updated.configId = configId then reloadAgent else some updated

namespace CellAgent

variable (orders : KeyOrders)

/-- `on_data`. -/
def onData (a : CellAgent) (registryId : String) (package : Option AgentPackage) : CellAgent :=
  match a.point with
  | .spinning configId ownId reloadAgent =>
    let reloadAgent :=
      if registryId = configId then reloadAgent else onAgentConfigReceived configId reloadAgent package
    { a with point := .spinning configId ownId reloadAgent }
  | _ => a

/-- `Agent.open`, at the start of the process or of the agent that replaces another. -/
def «open» (a : CellAgent) : Result CellAgent := do
  let ids ← a.root.open
  .ok { a with point := .starting ids.1 ids.2 }

/-- One step of `Agent.reload`. -/
def reload (a : CellAgent) (package : AgentPackage) : ReloadStage → Result CellAgent
  | .importing =>
    if package.owner ≠ a.root.owner then .error (.value "invalid agent owner")
    else do
      let root ← a.root.importOther orders package
      .ok ⟨root, .reloading .extractingKeys package⟩
  | .extractingKeys =>
    .ok ⟨{ a.root with idImport := some package.configId }, .reloading .extractingMarker package⟩
  | .extractingMarker =>
    .ok ⟨{ a.root with owner := package.owner, configId := package.configId }, .reloading .asserting package⟩
  | .asserting => .ok ⟨a.root.assertAgent, .reloading .opening package⟩
  | .opening => do
    let _ ← a.root.open
    .ok ⟨a.root, .reloading .importingKeys package⟩
  | .importingKeys => { a with root := a.root.finishImportIdDbKeys }.open

/-- The next step of the process. -/
def next (a : CellAgent) : Result CellAgent :=
  match a.point with
  | .stopped => .ok a
  | .starting configId registryId => .ok { a with point := .spinning configId registryId none }
  | .spinning _ _ none => .ok a
  | .spinning _ _ (some package) => .ok { a with point := .reloading .importing package }
  | .reloading stage package => a.reload orders package stage

def kill (a : CellAgent) : CellAgent := { a with point := .stopped }

/-- An exception ends the process. -/
def orKill (a : CellAgent) (r : Result CellAgent) : CellAgent :=
  match r with
  | .ok a' => a'
  | .error _ => a.kill

/-- The agent is started, if it is not running. -/
def start (a : CellAgent) : CellAgent :=
  match a.point with
  | .stopped => a.orKill a.open
  | _ => a

def step (a : CellAgent) : CellAct → CellAgent
  | .start => a.start
  | .progress => a.orKill (a.next orders)
  | .data registryId package => a.onData registryId package
  | .kill => a.kill

def run (a : CellAgent) (acts : List CellAct) : CellAgent := acts.foldl (step orders) a

theorem run_append (a : CellAgent) (acts : List CellAct) (act : CellAct) :
    a.run orders (acts ++ [act]) = (a.run orders acts).step orders act := List.foldl_append

theorem run_cons (a : CellAgent) (act : CellAct) (acts : List CellAct) :
    a.run orders (act :: acts) = (a.step orders act).run orders acts := rfl

variable {orders} {a : CellAgent}

@[simp] theorem step_start : a.step orders .start = a.start := rfl

@[simp] theorem step_progress : a.step orders .progress = a.orKill (a.next orders) := rfl

@[simp] theorem step_data {registryId : String} {package : Option AgentPackage} :
    a.step orders (.data registryId package) = a.onData registryId package := rfl

@[simp] theorem step_kill : a.step orders .kill = a.kill := rfl

theorem run_spinning {root : AgentRoot} {configId registryId : String} (n : ℕ) :
    (CellAgent.mk root (.spinning configId registryId none)).run orders (List.replicate n .progress) =
      ⟨root, .spinning configId registryId none⟩ := by
  induction n with
  | zero => rfl
  | succ n ih =>
    rw [List.replicate_succ, run_cons, step_progress]
    exact ih

/-! ### Being started again -/

@[simp] theorem root_kill : a.kill.root = a.root := rfl

theorem root_open {a' : CellAgent} (h : a.open = .ok a') : a'.root = a.root ∧ a.root.Startable := by
  obtain ⟨ids, hids, heq⟩ := Except.bind_eq_ok_iff.mp h
  rw [← Except.ok.inj heq]
  unfold AgentRoot.open at hids
  split_ifs at hids with hmem
  exact ⟨rfl, hmem⟩

theorem startable_assertAgent (root : AgentRoot) : root.assertAgent.Startable := by
  unfold AgentRoot.assertAgent AgentRoot.Startable
  split_ifs with h
  · exact h
  · exact List.mem_append_right _ (List.mem_singleton_self _)

theorem startable_finishImportIdDbKeys {root : AgentRoot} (h : root.Startable) :
    root.finishImportIdDbKeys.Startable := by
  unfold AgentRoot.finishImportIdDbKeys
  split
  · exact h
  · exact h

/-- `id.yaml` was written, and the record of its config id was not. -/
structure Asserting (a : CellAgent) : Prop where
  point : ∃ package, a.point = .reloading .asserting package
  root : ¬ a.root.Startable

theorem startable_reload {a' : CellAgent} {package : AgentPackage} {stage : ReloadStage} (h : a.root.Startable)
    (hstep : a.reload orders package stage = .ok a') : a'.root.Startable ∨ a'.Asserting := by
  cases stage with
  | importing =>
    unfold reload at hstep
    split_ifs at hstep with howner
    obtain ⟨root, himport, heq⟩ := Except.bind_eq_ok_iff.mp hstep
    obtain ⟨database, -, hroot⟩ := Except.bind_eq_ok_iff.mp himport
    rw [← Except.ok.inj heq, ← Except.ok.inj hroot]
    exact .inl h
  | extractingKeys =>
    rw [← Except.ok.inj hstep]
    exact .inl h
  | extractingMarker =>
    rw [← Except.ok.inj hstep]
    by_cases hmem : package.configId ∈ a.root.agents
    · exact .inl hmem
    · exact .inr ⟨⟨package, rfl⟩, hmem⟩
  | asserting =>
    rw [← Except.ok.inj hstep]
    exact .inl (startable_assertAgent a.root)
  | opening =>
    obtain ⟨ids, -, heq⟩ := Except.bind_eq_ok_iff.mp hstep
    rw [← Except.ok.inj heq]
    exact .inl h
  | importingKeys =>
    obtain ⟨hroot, hstart⟩ := root_open hstep
    rw [hroot]
    exact .inl hstart

theorem startable_orKill (h : a.root.Startable) {r : Result CellAgent}
    (hr : ∀ a', r = .ok a' → a'.root.Startable ∨ a'.Asserting) :
    (a.orKill r).root.Startable ∨ (a.orKill r).Asserting := by
  cases r with
  | ok a' => exact hr a' rfl
  | error e => exact .inl h

theorem startable_step (h : a.root.Startable) (act : CellAct) :
    (a.step orders act).root.Startable ∨ (a.step orders act).Asserting := by
  cases act with
  | start =>
    show a.start.root.Startable ∨ a.start.Asserting
    unfold start
    split
    · refine startable_orKill h fun a' hopen => ?_
      obtain ⟨hroot, hstart⟩ := root_open hopen
      rw [hroot]
      exact .inl hstart
    · exact .inl h
  | progress =>
    show (a.orKill (a.next orders)).root.Startable ∨ _
    refine startable_orKill h fun a' hnext => ?_
    unfold next at hnext
    split at hnext
    · rw [← Except.ok.inj hnext]
      exact .inl h
    · rw [← Except.ok.inj hnext]
      exact .inl h
    · rw [← Except.ok.inj hnext]
      exact .inl h
    · rw [← Except.ok.inj hnext]
      exact .inl h
    · exact startable_reload h hnext
  | data registryId package =>
    show (a.onData registryId package).root.Startable ∨ _
    unfold onData
    split
    · exact .inl h
    · exact .inl h
  | kill => exact .inl h

theorem Asserting.step (h : a.Asserting) (act : CellAct) :
    (a.step orders act).root.Startable ∨ (a.step orders act).Asserting ∨ act = .kill := by
  obtain ⟨⟨package, hpoint⟩, hroot⟩ := h
  cases act with
  | start =>
    refine .inr (.inl ?_)
    show a.start.Asserting
    unfold CellAgent.start
    rw [hpoint]
    exact ⟨⟨package, hpoint⟩, hroot⟩
  | progress =>
    refine .inl ?_
    show (a.orKill (a.next orders)).root.Startable
    unfold next
    rw [hpoint]
    exact startable_assertAgent a.root
  | data registryId updated =>
    refine .inr (.inl ?_)
    show (a.onData registryId updated).Asserting
    unfold onData
    rw [hpoint]
    exact ⟨⟨package, hpoint⟩, hroot⟩
  | kill => exact .inr (.inr rfl)

theorem open_eq (h : a.root.Startable) : a.open = .ok ⟨a.root, .starting a.root.configId a.root.registryId⟩ := by
  have hopen : a.root.open = .ok (a.root.configId, a.root.registryId) := if_pos h
  rw [CellAgent.open, hopen]
  rfl

theorem start_kill (h : a.root.Startable) : a.kill.start = ⟨a.root, .starting a.root.configId a.root.registryId⟩ := by
  have hopen : a.kill.open = .ok _ := open_eq (a := a.kill) h
  unfold start
  rw [hopen]
  rfl

theorem step_of_stopped (hpoint : a.point = .stopped) (hroot : ¬ a.root.Startable) (act : CellAct) :
    a.step orders act = a := by
  have hkill : a.kill = a := by rw [kill, ← hpoint]
  cases act with
  | start =>
    have hopen : a.root.open = .error .stopIteration := if_neg hroot
    show a.start = a
    unfold start CellAgent.open
    rw [hpoint, hopen]
    exact hkill
  | progress =>
    show a.orKill (a.next orders) = a
    unfold next
    rw [hpoint]
    rfl
  | data registryId package =>
    show a.onData registryId package = a
    unfold onData
    rw [hpoint]
  | kill => exact hkill

/-- The process was killed between `id.yaml` and the record. -/
def KilledAsserting (orders : KeyOrders) (a : CellAgent) (acts : List CellAct) : Prop :=
  ∃ acts₁ acts₂, acts = acts₁ ++ .kill :: acts₂ ∧ (a.run orders acts₁).Asserting

theorem KilledAsserting.append {acts : List CellAct} (h : a.KilledAsserting orders acts) (act : CellAct) :
    a.KilledAsserting orders (acts ++ [act]) := by
  obtain ⟨acts₁, acts₂, rfl, hasserting⟩ := h
  exact ⟨acts₁, acts₂ ++ [act], by rw [List.append_assoc, List.cons_append], hasserting⟩

theorem KilledAsserting.stopped {acts : List CellAct} (h : a.KilledAsserting orders acts) :
    (a.run orders acts).point = .stopped ∧ ¬ (a.run orders acts).root.Startable := by
  obtain ⟨acts₁, acts₂, rfl, hasserting⟩ := h
  induction acts₂ using List.reverseRecOn with
  | nil =>
    rw [run_append]
    exact ⟨rfl, hasserting.root⟩
  | append_singleton acts₂ act ih =>
    rw [← List.cons_append, ← List.append_assoc, run_append, step_of_stopped ih.1 ih.2]
    exact ih

theorem run_cases (orders : KeyOrders) (h : a.root.Startable) (acts : List CellAct) :
    (a.run orders acts).root.Startable ∨ (a.run orders acts).Asserting ∨ a.KilledAsserting orders acts := by
  induction acts using List.reverseRecOn with
  | nil => exact .inl h
  | append_singleton acts act ih =>
    rw [run_append]
    rcases ih with hstart | hasserting | hkilled
    · rcases startable_step hstart act with hstart | hasserting
      · exact .inl hstart
      · exact .inr (.inl hasserting)
    · rcases hasserting.step act with hstart | hasserting' | rfl
      · exact .inl hstart
      · exact .inr (.inl hasserting')
      · exact .inr (.inr ⟨acts, [], rfl, hasserting⟩)
    · exact .inr (.inr (hkilled.append act))

/-- In every run of an installed agent, which may be killed anywhere, given any samples and started at any time: it is
stopped for good exactly if it was killed between writing `id.yaml` and the record of that config id. -/
theorem cannot_start_iff (orders : KeyOrders) (package : AgentPackage) (acts : List CellAct) :
    (∀ acts', ((CellAgent.mk (.install package) .stopped).run orders (acts ++ acts')).point = .stopped) ↔
      (CellAgent.mk (.install package) .stopped).KilledAsserting orders acts := by
  set a : CellAgent := ⟨.install package, .stopped⟩
  constructor
  · intro hstopped
    have hinstalled : a.root.Startable := List.mem_singleton_self _
    rcases run_cases orders hinstalled acts with hstart | hasserting | hkilled
    · -- after a kill the agent would start
      have hpoint := hstopped [.kill, .start]
      rw [run, List.foldl_append] at hpoint
      have hpoint : (a.run orders acts).kill.start.point = .stopped := hpoint
      rw [start_kill hstart] at hpoint
      cases hpoint
    · obtain ⟨p, hpoint⟩ := hasserting.point
      have hnil := hstopped []
      rw [List.append_nil, hpoint] at hnil
      cases hnil
    · exact hkilled
  · rintro ⟨acts₁, acts₂, rfl, hasserting⟩ acts'
    have hkilled : a.KilledAsserting orders (acts₁ ++ .kill :: acts₂ ++ acts') :=
      ⟨acts₁, acts₂ ++ acts', by rw [List.append_assoc, List.cons_append], hasserting⟩
    exact hkilled.stopped.1

/-! ### An undisturbed reload -/

/-- Once the database was imported, the agent spins again. -/
theorem run_reload (orders : KeyOrders) (root : AgentRoot) (package : AgentPackage) : ∃ (root' : AgentRoot),
    (CellAgent.mk root (.reloading .extractingKeys package)).run orders (List.replicate 6 .progress) =
      ⟨root', .spinning root'.configId root'.registryId none⟩ := by
  set asserted : AgentRoot := AgentRoot.assertAgent
    { root with idImport := some package.configId, owner := package.owner, configId := package.configId } with hasserted
  have hstart : asserted.Startable := startable_assertAgent _
  have hfinished := startable_finishImportIdDbKeys hstart
  have hopening : (CellAgent.mk asserted (.reloading .opening package)).step orders .progress =
      ⟨asserted, .reloading .importingKeys package⟩ := by
    have hopen : asserted.open = .ok _ := if_pos hstart
    show CellAgent.orKill _ (asserted.open >>= fun _ => .ok _) = _
    rw [hopen]
    rfl
  have hkeys : (CellAgent.mk asserted (.reloading .importingKeys package)).step orders .progress =
      ⟨asserted.finishImportIdDbKeys, .starting asserted.finishImportIdDbKeys.configId
        asserted.finishImportIdDbKeys.registryId⟩ := by
    have hopen : (CellAgent.mk asserted.finishImportIdDbKeys (.reloading .importingKeys package)).open = .ok _ :=
      open_eq hfinished
    show CellAgent.orKill _ (CellAgent.open _) = _
    rw [hopen]
    rfl
  have hasserting : (CellAgent.mk root (.reloading .extractingKeys package)).run orders (List.replicate 3 .progress) =
      ⟨asserted, .reloading .opening package⟩ := rfl
  refine ⟨asserted.finishImportIdDbKeys, ?_⟩
  rw [show List.replicate 6 CellAct.progress = List.replicate 3 .progress ++ List.replicate 3 .progress from rfl, run,
    List.foldl_append]
  show ((CellAgent.mk root _).run orders _).run orders _ = _
  rw [hasserting, List.replicate_succ, run_cons, hopening, List.replicate_succ, run_cons, hkeys, List.replicate_one,
    run_cons]
  rfl

end CellAgent

end Uno
