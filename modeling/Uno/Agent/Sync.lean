import Uno.Agent.Reload
import Uno.Agent.Push

/-!
# Distributing a configuration

The registry generates configurations, and its agent publishes their packages until all cells report the configuration
(`spin_until_consistent`). The agents of the cells take the packages over as they come, and may be killed and started
again at any moment; the registry may generate further configurations meanwhile.

When the agent of the registry is done, every active cell has the configuration, or one that was generated later, and
computes from it what the registry computes (`sync_agrees`).
-/

namespace Uno

open RegistryState

/-! ### The configurations of a registry -/

/-- A configuration that the registry generated, with the packages of the active cells. -/
structure Release where
  configId : String
  setup : Setup
  state : RegistryState
  ids : KeyRowIds
  /-- The addresses that the package of a cell lets through. -/
  allowedIps : ℕ → List String
  database : ℕ → CellPackage
  reachable : state.Reachable setup
  unique : (state.uvnKeys setup ids).Unique
  made : ∀ row ∈ state.uvn.cells,
    state.cellPackage (setup.withAllowedIps (allowedIps row.id)) ids row = .ok (database row.id)

namespace Release

variable (r : Release)

def usedSetup (cell : ℕ) : Setup := r.setup.withAllowedIps (r.allowedIps cell)

def package (cell : ℕ) : AgentPackage := ⟨cell, r.configId, r.database cell⟩

def handout {cell : ℕ} {row : CellRow} (hrow : row ∈ r.state.uvn.cells) (hid : row.id = cell) : Handout cell where
  setup := r.setup
  state := r.state
  ids := r.ids
  allowedIps := r.allowedIps cell
  row := row
  package := r.database cell
  row_id := hid
  reachable := r.reachable
  unique := r.unique
  mem := hrow
  made := hid ▸ r.made row hrow

/-- The cell is active. -/
def Active (cell : ℕ) : Prop := ∃ row ∈ r.state.uvn.cells, row.id = cell

end Release

/-- The configurations that the registry generates, one after the other. -/
structure ReleaseLog where
  release : ℕ → Release
  configId_injective : Function.Injective fun v => (release v).configId
  /-- `next_id` counts up: a row id stands for one key. -/
  sameIds : ∀ v w, v ≤ w → ∀ c, (release v).Active c → (release w).Active c →
    ((release v).database c).keys.SameIds ((release w).database c).keys

/-- The agent of the registry, once it has loaded a configuration. -/
def ReleaseLog.agent (log : ReleaseLog) (uvnName : String) (v : ℕ) : Agent :=
  ⟨(log.release v).state.uvn, uvnName, (log.release v).configId, .registry⟩

/-! ### The agents and the samples between them -/

/-- A running agent of the registry. -/
structure SyncAgent (log : ReleaseLog) (uvnName : String) where
  version : ℕ
  peers : UvnPeersList (log.agent uvnName version)

/-- A sample of the BACKBONE topic: it names the configuration of the agent that writes it, and carries the package that
is on disk then. -/
structure BackboneSample where
  cell : ℕ
  registryId : String
  version : ℕ

structure Network (log : ReleaseLog) (uvnName : String) where
  /-- The last configuration generated. -/
  issued : ℕ
  sync : Option (SyncAgent log uvnName)
  samples : List BackboneSample
  /-- The config ids that the cells reported. -/
  statuses : List (ℕ × String)
  cells : ℕ → Option CellAgent
  /-- The package that a cell was installed from or received last. -/
  received : ℕ → ℕ

inductive NetworkAct where
  | generate
  /-- The agent of the registry is started. -/
  | sync (rows : PeerOwner → Option PeerRow) (tsStart : Timestamp)
  | endSync
  | publish (cell version : ℕ)
  | event (e : SpinEvent)
  | install (cell version : ℕ)
  /-- A sample is received; its package may fail to install. -/
  | receive (sample : BackboneSample) (loads : Bool)
  | cell (cell : ℕ) (act : CellAct)

/-- What a spinning agent reports. -/
def CellAgent.status (a : CellAgent) : Option String :=
  match a.point with
  | .spinning _ registryId _ => some registryId
  | _ => none

namespace SyncAgent

variable {log : ReleaseLog} {uvnName : String}

/-- `_on_started`. -/
def start (v : ℕ) (rows : PeerOwner → Option PeerRow) (tsStart : Timestamp) : Result (SyncAgent log uvnName) := do
  let registryId := (log.release v).configId
  let peers ← (UvnPeersList.load (log.agent uvnName v) rows).step
    (.online { registryId := .set (some registryId), routedNetworks := .set ∅, tsStart := .set (some tsStart) })
  .ok ⟨v, peers⟩

def event (p : SyncAgent log uvnName) (e : SpinEvent) : Result (SyncAgent log uvnName) := do
  let peers ← p.peers.step e.toPeersEvent
  .ok ⟨p.version, peers⟩

/-- `_until_consistent`. -/
def untilConsistent (p : SyncAgent log uvnName) (configOnly : Bool) : Bool :=
  if configOnly && p.peers.statusConsistentConfigUvn then true
  else p.peers.statusConsistentConfigUvn && p.peers.statusFullyRoutedUvn

end SyncAgent

namespace Network

variable {log : ReleaseLog} {uvnName : String} (orders : KeyOrders) (s : Network log uvnName)

/-- The agent of a cell takes a step, and reports its configuration if it is spinning then. -/
def stepCell (cell : ℕ) (act : CellAct) : Network log uvnName :=
  match s.cells cell with
  | none => s
  | some a =>
    let a' := a.step orders act
    { s with
      cells := fun c => if c = cell then some a' else s.cells c
      statuses := s.statuses ++ (a'.status.map fun registryId => (cell, registryId)).toList }

def step : NetworkAct → Result (Network log uvnName)
  | .generate => .ok { s with issued := s.issued + 1 }
  | .sync rows tsStart => do
    let p ← SyncAgent.start s.issued rows tsStart
    .ok { s with sync := some p }
  | .endSync => .ok { s with sync := none }
  | .publish cell version =>
    match s.sync with
    | none => .ok s
    | some p => .ok { s with samples := s.samples ++ [⟨cell, (log.release p.version).configId, version⟩] }
  | .event e =>
    match s.sync with
    | none => .ok s
    | some p => do
      let p' ← p.event e
      .ok { s with sync := some p' }
  | .install cell version =>
    .ok { s with
      cells := fun c =>
        if c = cell then some ⟨.install ((log.release version).package cell), .stopped⟩ else s.cells c
      received := fun c => if c = cell then version else s.received c }
  | .receive sample loads =>
    let package := if loads then some ((log.release sample.version).package sample.cell) else none
    let s' := s.stepCell orders sample.cell (.data sample.registryId package)
    .ok { s' with received := fun c => if c = sample.cell then sample.version else s.received c }
  | .cell cell act => .ok (s.stepCell orders cell act)

/-- What the registry, the operators and the middleware do. -/
def Permitted : NetworkAct → Prop
  | .generate => True
  -- one agent runs on a host
  | .sync _ _ => s.sync = none
  | .endSync => True
  -- the package that was generated with some configuration is on disk
  | .publish cell version => version ≤ s.issued ∧ (log.release version).Active cell
  -- what the registry hears from a cell is what the cell reported
  | .event (.onReaderDataCellInfo _ cell registryId _ _ _ _ _) => ∀ r, registryId = some r → (cell, r) ∈ s.statuses
  | .event _ => True
  | .install cell version => version ≤ s.issued ∧ (log.release version).Active cell ∧ s.received cell ≤ version ∧
    ∀ a, s.cells cell = some a → a.point = .stopped
  -- the samples of a cell are received in the order in which they were written
  | .receive sample _ => sample ∈ s.samples ∧ s.received sample.cell ≤ sample.version
  | .cell _ act => ∀ registryId package, act ≠ .data registryId package

def init (log : ReleaseLog) (uvnName : String) : Network log uvnName := ⟨0, none, [], [], fun _ => none, fun _ => 0⟩

end Network

/-! ### What the agent of a cell has -/

/-- The package was made with the configuration. -/
def Release.Hands (r : Release) {cell : ℕ} (h : Handout cell) : Prop :=
  ∃ (row : CellRow) (hrow : row ∈ r.state.uvn.cells) (hid : row.id = cell), h = r.handout hrow hid

/-- The database of an agent after the packages up to a configuration. -/
structure HasDatabase (log : ReleaseLog) (cell version : ℕ) (root : AgentRoot) : Prop where
  owner : root.owner = cell
  registryId : root.registryId = (log.release version).configId
  follows : ∃ (seen : List (Handout cell)) (last : Handout cell), Follows seen last root.database ∧
    (log.release version).Hands last ∧ ∀ h ∈ seen, ∃ v ≤ version, (log.release v).Hands h

/-- A package that the agent may still import. -/
def IsPackage (log : ReleaseLog) (cell version received : ℕ) (package : AgentPackage) : Prop :=
  ∃ v, version ≤ v ∧ v ≤ received ∧ (log.release v).Active cell ∧ package = (log.release v).package cell

/-- What the process of an agent holds, besides its files. -/
def HoldsPackages (log : ReleaseLog) (cell version received : ℕ) (root : AgentRoot) : AgentPoint → Prop
  | .stopped => True
  | .starting configId registryId => configId = root.configId ∧ registryId = (log.release version).configId
  | .spinning configId registryId reloadAgent =>
    configId = root.configId ∧ registryId = (log.release version).configId ∧
      ∀ package, reloadAgent = some package → IsPackage log cell version received package
  | .reloading .importing package => IsPackage log cell version received package
  -- the database of the package was imported
  | .reloading _ package => package = (log.release version).package cell

/-- An agent with the database of a configuration. -/
structure AtVersion (log : ReleaseLog) (cell version received : ℕ) (a : CellAgent) : Prop where
  database : HasDatabase log cell version a.root
  point : HoldsPackages log cell version received a.root a.point
  /-- The configuration in `id.yaml` is not a later one. -/
  marker : ∃ w ≤ version, a.root.configId = (log.release w).configId

variable {log : ReleaseLog} {uvnName : String} {orders : KeyOrders} {cell version received : ℕ}

theorem HasDatabase.install (h : (log.release version).Active cell) :
    HasDatabase log cell version (.install ((log.release version).package cell)) := by
  obtain ⟨row, hrow, hid⟩ := h
  have hands : (log.release version).Hands ((log.release version).handout hrow hid) := ⟨row, hrow, hid, rfl⟩
  refine ⟨rfl, rfl, [(log.release version).handout hrow hid], _, Follows.first _, hands, fun h hh => ?_⟩
  rw [List.mem_singleton.mp hh]
  exact ⟨version, le_rfl, hands⟩

theorem HasDatabase.importOther (orders : KeyOrders) {root : AgentRoot} (h : HasDatabase log cell version root)
    {package : AgentPackage} (hpackage : IsPackage log cell version received package) :
    ∃ (root' : AgentRoot) (v : ℕ), root.importOther orders package = .ok root' ∧ version ≤ v ∧ v ≤ received ∧
      HasDatabase log cell v root' ∧ package = (log.release v).package cell := by
  obtain ⟨v, hle, hreceived, hactive, rfl⟩ := hpackage
  obtain ⟨row, hrow, hid⟩ := hactive
  obtain ⟨seen, last, hfollows, -, hseen⟩ := h.follows
  set new := (log.release v).handout hrow hid with hnew
  have hcounter : ∀ h' ∈ seen, h'.package.keys.SameIds new.package.keys := by
    intro h' hh'
    obtain ⟨w, hw, row', hrow', hid', rfl⟩ := hseen h' hh'
    exact log.sameIds w v (hw.trans hle) cell ⟨row', hrow', hid'⟩ ⟨row, hrow, hid⟩
  obtain ⟨db, himport, hdb⟩ := hfollows.importOther orders new hcounter
  have hands : (log.release v).Hands new := ⟨row, hrow, hid, rfl⟩
  refine ⟨{ root with database := db, registryId := (log.release v).configId }, v, ?_, hle, hreceived,
    ⟨h.owner, rfl, seen ++ [new], new, hdb, hands, fun h' hh' => ?_⟩, rfl⟩
  · have hsame : root.database.importOther orders ((log.release v).package cell).database = .ok db := himport
    rw [AgentRoot.importOther, hsame]
    rfl
  · rcases List.mem_append.mp hh' with hold | hone
    · obtain ⟨w, hw, hh⟩ := hseen h' hold
      exact ⟨w, hw.trans hle, hh⟩
    · rw [List.mem_singleton.mp hone]
      exact ⟨v, le_rfl, hands⟩

theorem HasDatabase.congr {root root' : AgentRoot} (h : HasDatabase log cell version root) (howner : root'.owner = cell)
    (hsame : root'.registryId = root.registryId ∧ root'.database = root.database) :
    HasDatabase log cell version root' := by
  refine ⟨howner, hsame.1.trans h.registryId, ?_⟩
  rw [hsame.2]
  exact h.follows

theorem IsPackage.mono {received' : ℕ} {package : AgentPackage} (h : IsPackage log cell version received package)
    (hle : received ≤ received') : IsPackage log cell version received' package := by
  obtain ⟨v, hv, hreceived, hpackage⟩ := h
  exact ⟨v, hv, hreceived.trans hle, hpackage⟩

theorem HoldsPackages.mono {received' : ℕ} {root : AgentRoot} {point : AgentPoint}
    (h : HoldsPackages log cell version received root point) (hle : received ≤ received') :
    HoldsPackages log cell version received' root point := by
  cases point with
  | stopped => trivial
  | starting configId registryId => exact h
  | spinning configId registryId reloadAgent =>
    exact ⟨h.1, h.2.1, fun package hpackage => (h.2.2 package hpackage).mono hle⟩
  | reloading stage package =>
    cases stage with
    | importing => exact IsPackage.mono h hle
    | extractingKeys => exact h
    | extractingMarker => exact h
    | asserting => exact h
    | opening => exact h
    | importingKeys => exact h

namespace AtVersion

variable {a a' : CellAgent}

theorem mono {received' : ℕ} (h : AtVersion log cell version received a) (hle : received ≤ received') :
    AtVersion log cell version received' a := ⟨h.database, h.point.mono hle, h.marker⟩

theorem kill (h : AtVersion log cell version received a) : AtVersion log cell version received a.kill :=
  ⟨h.database, trivial, h.marker⟩

theorem «open» (hdatabase : HasDatabase log cell version a.root)
    (hmarker : ∃ w ≤ version, a.root.configId = (log.release w).configId) (hopen : a.open = .ok a') :
    AtVersion log cell version received a' := by
  obtain ⟨ids, hids, heq⟩ := Except.bind_eq_ok_iff.mp hopen
  rw [← Except.ok.inj heq]
  unfold AgentRoot.open at hids
  split_ifs at hids with hmem
  refine ⟨hdatabase, ?_, hmarker⟩
  rw [← Except.ok.inj hids]
  exact ⟨rfl, hdatabase.registryId⟩

theorem importing (orders : KeyOrders) (h : AtVersion log cell version received a) {package : AgentPackage}
    (hpackage : IsPackage log cell version received package) : ∃ (root : AgentRoot) (v : ℕ),
      a.reload orders package .importing = .ok ⟨root, .reloading .extractingKeys package⟩ ∧ version ≤ v ∧ v ≤ received ∧
      package = (log.release v).package cell ∧
      AtVersion log cell v received ⟨root, .reloading .extractingKeys package⟩ := by
  obtain ⟨root, v, himport, hv, hreceived, hdb, heq⟩ := h.database.importOther orders hpackage
  have howner : package.owner = cell := congrArg AgentPackage.owner heq
  refine ⟨root, v, ?_, hv, hreceived, heq, hdb, heq, ?_⟩
  · unfold CellAgent.reload
    rw [if_neg fun hne => hne (howner.trans h.database.owner.symm), himport]
    rfl
  · obtain ⟨w, hw, hconfigId⟩ := h.marker
    obtain ⟨database, -, hroot⟩ := Except.bind_eq_ok_iff.mp himport
    rw [← Except.ok.inj hroot]
    exact ⟨w, hw.trans hv, hconfigId⟩

theorem reload (h : AtVersion log cell version received a) {package : AgentPackage} {stage : ReloadStage}
    (hpoint : HoldsPackages log cell version received a.root (.reloading stage package)) (hne : stage ≠ .importing)
    (hstep : a.reload orders package stage = .ok a') : AtVersion log cell version received a' := by
  cases stage with
  | importing => exact absurd rfl hne
  | extractingKeys =>
    rw [← Except.ok.inj hstep]
    exact ⟨h.database.congr h.database.owner ⟨rfl, rfl⟩, hpoint, h.marker⟩
  | extractingMarker =>
    rw [← Except.ok.inj hstep]
    obtain rfl := hpoint
    exact ⟨h.database.congr rfl ⟨rfl, rfl⟩, rfl, version, le_rfl, rfl⟩
  | asserting =>
    rw [← Except.ok.inj hstep]
    unfold AgentRoot.assertAgent
    split_ifs
    · exact ⟨h.database, hpoint, h.marker⟩
    · exact ⟨h.database.congr h.database.owner ⟨rfl, rfl⟩, hpoint, h.marker⟩
  | opening =>
    obtain ⟨ids, -, heq⟩ := Except.bind_eq_ok_iff.mp hstep
    rw [← Except.ok.inj heq]
    exact ⟨h.database, hpoint, h.marker⟩
  | importingKeys =>
    refine «open» (a := { a with root := a.root.finishImportIdDbKeys }) ?_ ?_ hstep
    · show HasDatabase log cell version a.root.finishImportIdDbKeys
      unfold AgentRoot.finishImportIdDbKeys
      split
      · exact h.database
      · exact h.database.congr h.database.owner ⟨rfl, rfl⟩
    · show ∃ w ≤ version, a.root.finishImportIdDbKeys.configId = _
      unfold AgentRoot.finishImportIdDbKeys
      split
      · exact h.marker
      · exact h.marker

theorem next (h : AtVersion log cell version received a) (hle : version ≤ received)
    (hnext : a.next orders = .ok a') : ∃ v, version ≤ v ∧ v ≤ received ∧ AtVersion log cell v received a' := by
  have hpoint := h.point
  unfold CellAgent.next at hnext
  split at hnext
  next heq =>
    rw [← Except.ok.inj hnext]
    exact ⟨version, le_rfl, hle, h⟩
  next configId registryId heq =>
    rw [heq] at hpoint
    rw [← Except.ok.inj hnext]
    refine ⟨version, le_rfl, hle, h.database, ⟨hpoint.1, hpoint.2, fun package hnone => ?_⟩, h.marker⟩
    cases hnone
  next configId registryId heq =>
    rw [← Except.ok.inj hnext]
    exact ⟨version, le_rfl, hle, h⟩
  next configId registryId package heq =>
    rw [heq] at hpoint
    rw [← Except.ok.inj hnext]
    exact ⟨version, le_rfl, hle, h.database, hpoint.2.2 package rfl, h.marker⟩
  next stage package heq =>
    rw [heq] at hpoint
    by_cases hstage : stage = .importing
    · subst hstage
      obtain ⟨root, v, himport, hv, hreceived, -, hat⟩ := h.importing orders hpoint
      rw [himport] at hnext
      rw [← Except.ok.inj hnext]
      exact ⟨v, hv, hreceived, hat⟩
    · exact ⟨version, le_rfl, hle, h.reload hpoint hstage hnext⟩

theorem onData (h : AtVersion log cell version received a) (registryId : String) {package : Option AgentPackage}
    (hpackage : ∀ p, package = some p → IsPackage log cell version received p) :
    AtVersion log cell version received (a.onData registryId package) := by
  have hpoint := h.point
  unfold CellAgent.onData
  split
  next configId ownId reloadAgent heq =>
    rw [heq] at hpoint
    refine ⟨h.database, ⟨hpoint.1, hpoint.2.1, fun p hp => ?_⟩, h.marker⟩
    split_ifs at hp
    · exact hpoint.2.2 p hp
    · unfold onAgentConfigReceived at hp
      split at hp
      next => exact hpoint.2.2 p hp
      next updated =>
        split_ifs at hp
        · exact hpoint.2.2 p hp
        · exact hpackage p hp
  next => exact h

theorem step (orders : KeyOrders) (h : AtVersion log cell version received a) (hle : version ≤ received) {act : CellAct}
    (hact : ∀ registryId package, act ≠ .data registryId package) :
    ∃ v, version ≤ v ∧ v ≤ received ∧ AtVersion log cell v received (a.step orders act) := by
  have hkept : ∃ v, version ≤ v ∧ v ≤ received ∧ AtVersion log cell v received a.kill :=
    ⟨version, le_rfl, hle, h.kill⟩
  cases act with
  | start =>
    show ∃ v, version ≤ v ∧ v ≤ received ∧ AtVersion log cell v received a.start
    unfold CellAgent.start
    split
    · cases hopen : a.open with
      | error e => exact hkept
      | ok a' => exact ⟨version, le_rfl, hle, .open h.database h.marker hopen⟩
    · exact ⟨version, le_rfl, hle, h⟩
  | progress =>
    show ∃ v, version ≤ v ∧ v ≤ received ∧ AtVersion log cell v received (a.orKill (a.next orders))
    cases hnext : a.next orders with
    | error e => exact hkept
    | ok a' => exact h.next hle hnext
  | data registryId package => exact absurd rfl (hact registryId package)
  | kill => exact hkept

theorem run (orders : KeyOrders) (h : AtVersion log cell version received a) (hle : version ≤ received)
    (acts : List CellAct) (hacts : ∀ act ∈ acts, ∀ registryId package, act ≠ .data registryId package) :
    ∃ v, version ≤ v ∧ v ≤ received ∧ AtVersion log cell v received (a.run orders acts) := by
  induction acts generalizing a version with
  | nil => exact ⟨version, le_rfl, hle, h⟩
  | cons act rest ih =>
    obtain ⟨v, hv, hreceived, hat⟩ := h.step orders hle (hacts act List.mem_cons_self)
    obtain ⟨v', hv', hreceived', hat'⟩ := ih hat hreceived fun act hact => hacts act (List.mem_cons_of_mem _ hact)
    exact ⟨v', hv.trans hv', hreceived', hat'⟩

theorem status (h : AtVersion log cell version received a) {registryId : String}
    (hstatus : a.status = some registryId) : registryId = (log.release version).configId := by
  have hpoint := h.point
  unfold CellAgent.status at hstatus
  split at hstatus
  next configId ownId reloadAgent heq =>
    rw [heq] at hpoint
    rw [← Option.some.inj hstatus]
    exact hpoint.2.1
  next => cases hstatus

theorem run_takeOver (orders : KeyOrders) (hstart : a.root.Startable) (package : AgentPackage) (registryId : String) :
    a.run orders (package.takeOver registryId) =
      ((CellAgent.mk a.root (.spinning a.root.configId a.root.registryId none)).onData registryId
        (some package)).run orders (List.replicate 8 .progress) := by
  have hprogress : (CellAgent.mk a.root (.starting a.root.configId a.root.registryId)).step orders .progress =
      ⟨a.root, .spinning a.root.configId a.root.registryId none⟩ := rfl
  rw [AgentPackage.takeOver, List.cons_append, List.cons_append, List.cons_append, List.cons_append, List.nil_append,
    CellAgent.run_cons, CellAgent.step_kill, CellAgent.run_cons, CellAgent.step_start, CellAgent.start_kill hstart,
    CellAgent.run_cons, hprogress, CellAgent.run_cons, CellAgent.step_data]

theorem run_takeOver_ignored (orders : KeyOrders) (hstart : a.root.Startable) (package : AgentPackage) :
    a.run orders (package.takeOver a.root.configId) =
      ⟨a.root, .spinning a.root.configId a.root.registryId none⟩ := by
  have hdata : (CellAgent.mk a.root (.spinning a.root.configId a.root.registryId none)).onData a.root.configId
      (some package) = ⟨a.root, .spinning a.root.configId a.root.registryId none⟩ := by
    show CellAgent.mk a.root (.spinning _ _ (if a.root.configId = a.root.configId then _ else _)) = _
    rw [if_pos rfl]
  rw [run_takeOver orders hstart, hdata, CellAgent.run_spinning]

/-- A package that is not older than what the agent has is taken over, unless its sample is ignored. -/
theorem takeOver (orders : KeyOrders) (h : AtVersion log cell version received a) (hstart : a.root.Startable) {v : ℕ}
    (hv : version ≤ v) (hactive : (log.release v).Active cell) {registryId : String}
    (hname : registryId = a.root.configId → (log.release v).configId = a.root.configId) :
    AtVersion log cell v v (a.run orders (((log.release v).package cell).takeOver registryId)) ∧
      (a.run orders (((log.release v).package cell).takeOver registryId)).status = some (log.release v).configId := by
  set package := (log.release v).package cell with hpackage
  rw [run_takeOver orders hstart]
  by_cases hsame : (log.release v).configId = a.root.configId
  · -- the agent already has the configuration
    obtain ⟨w, hw, hconfigId⟩ := h.marker
    obtain rfl := log.configId_injective (hsame.trans hconfigId)
    obtain rfl : version = v := by omega
    have hdata : (CellAgent.mk a.root (.spinning a.root.configId a.root.registryId none)).onData registryId
        (some package) = ⟨a.root, .spinning a.root.configId a.root.registryId none⟩ := by
      show CellAgent.mk a.root (.spinning _ _ (if registryId = a.root.configId then _ else
        if (log.release version).configId = a.root.configId then _ else _)) = _
      rw [if_pos hsame, ite_self]
    rw [hdata, CellAgent.run_spinning]
    refine ⟨⟨h.database, ⟨rfl, h.database.registryId, fun p hp => ?_⟩, h.marker⟩, congrArg some h.database.registryId⟩
    cases hp
  · have hdata : (CellAgent.mk a.root (.spinning a.root.configId a.root.registryId none)).onData registryId
        (some package) = ⟨a.root, .spinning a.root.configId a.root.registryId (some package)⟩ := by
      show CellAgent.mk a.root (.spinning _ _ (if registryId = a.root.configId then _ else
        if (log.release v).configId = a.root.configId then _ else _)) = _
      rw [if_neg fun hid => hsame (hname hid), if_neg hsame]
    have himporting : AtVersion log cell version v ⟨a.root, .reloading .importing package⟩ :=
      ⟨h.database, ⟨v, hv, le_rfl, hactive, rfl⟩, h.marker⟩
    obtain ⟨root, v', hreload, -, hv', heq, hat⟩ := himporting.importing orders himporting.point
    obtain rfl := log.configId_injective (congrArg AgentPackage.configId heq)
    have himported : (CellAgent.mk a.root (.reloading .importing package)).step orders .progress =
        ⟨root, .reloading .extractingKeys package⟩ := by
      have hnext : (CellAgent.mk a.root (.reloading .importing package)).next orders = .ok _ := hreload
      rw [CellAgent.step_progress, hnext]
      rfl
    have hrest : ((CellAgent.mk a.root (.spinning a.root.configId a.root.registryId (some package))).run orders
        (List.replicate 8 .progress)) =
        (CellAgent.mk root (.reloading .extractingKeys package)).run orders (List.replicate 6 .progress) := by
      have hleave : (CellAgent.mk a.root (.spinning a.root.configId a.root.registryId (some package))).step orders
          .progress = ⟨a.root, .reloading .importing package⟩ := rfl
      rw [List.replicate_succ, CellAgent.run_cons, hleave, List.replicate_succ, CellAgent.run_cons, himported]
    rw [hdata, hrest]
    obtain ⟨v'', hle, hle', hat'⟩ := hat.run orders le_rfl (List.replicate 6 .progress)
      fun act hact registryId p => by
        rw [List.eq_of_mem_replicate hact]
        exact fun h => by cases h
    obtain rfl : v = v'' := by omega
    obtain ⟨root', hspinning⟩ := CellAgent.run_reload orders root package
    refine ⟨hat', ?_⟩
    rw [hspinning] at hat' ⊢
    exact congrArg some (hat'.status rfl)

end AtVersion

/-! ### What the agent of the registry knows -/

namespace UvnPeersList

variable {agent : Agent} {l : UvnPeersList agent} {u : Update} {statuses : List (ℕ × String)}

/-- The flag of the consistent configurations is not raised too early. -/
def Agreed (l : UvnPeersList agent) : Prop := l.statusConsistentConfigUvn = true → l.ConsistentConfigUvn

/-- The config ids of the cells are those that they reported. -/
def Heard (statuses : List (ℕ × String)) (l : UvnPeersList agent) : Prop :=
  ∀ p ∈ l.peers, ∀ row, p.owner = .cell row → ∀ r, p.registryId.value = some r → (row.id, r) ∈ statuses

theorem consistentConfigUvn_processUpdates (l : UvnPeersList agent) :
    l.processUpdates.ConsistentConfigUvn ↔ l.ConsistentConfigUvn := by
  have hsave : ∀ m : UvnPeersList agent, m.cells = l.cells → (m.save.ConsistentConfigUvn ↔ l.ConsistentConfigUvn) := by
    intro m hm
    have hcells : m.save.cells = m.cells.map UvnPeer.save := @cells_mapPeers agent m UvnPeer.save UvnPeer.owner_save
    unfold ConsistentConfigUvn
    rw [hcells, List.forall_mem_map, hm]
    exact forall₂_congr fun p _ => by rw [(values_save p).2.1]
  unfold processUpdates
  split_ifs
  · exact hsave _ rfl
  · exact Iff.rfl

/-- An update that resets no config id keeps the flag right. -/
theorem Agreed.updateAll (h : l.Agreed) (hreset : u.fields.registryId ≠ .reset) : (l.updateAll u).Agreed := by
  have hflag : (l.configured u).processUpdates.statusConsistentConfigUvn =
      if (l.configured u).dirty then (l.configured u).consistentConfigUvn else l.statusConsistentConfigUvn := by
    unfold processUpdates
    split_ifs <;> rfl
  intro hraised
  have hraised : (l.configured u).processUpdates.statusConsistentConfigUvn = true := hraised
  refine (consistentConfigUvn_processUpdates (l.configured u)).mpr ?_
  by_cases hnoticed : (l.configured u).dirty = true ∧ (l.configured u).consistencyChanged = true
  · rw [hflag, if_pos hnoticed.1, consistentConfigUvn, if_pos hnoticed.2] at hraised
    exact length_consistentConfigCells_iff.mp (of_decide_eq_true hraised)
  · -- without a noticed change, no cell ceases to be consistent
    have hkept : l.statusConsistentConfigUvn = true := by
      rw [hflag] at hraised
      split_ifs at hraised with hdirty
      · rwa [consistentConfigUvn, if_neg fun hchanged => hnoticed ⟨hdirty, hchanged⟩] at hraised
      · exact hraised
    have hall := h hkept
    unfold ConsistentConfigUvn at hall ⊢
    rw [forall_cells_configured]
    intro p hp
    by_cases happlies : u.appliesTo p = true
    · rw [apply_of_applies happlies]
      show (p.registryId.configure _ u.fields.registryId).value = _
      cases harg : u.fields.registryId with
      | absent => exact hall p hp
      | reset => exact absurd harg hreset
      | set id =>
        rw [Tracked.value_configure_set]
        by_contra hne
        exact hnoticed (noticed_registryId hp happlies harg fun hiff => hne (hiff.mp (hall p hp)))
    · rw [apply_of_not_applies (Bool.not_eq_true _ ▸ happlies)]
      exact hall p hp

theorem Heard.updateAll (h : l.Heard statuses)
    (hheard : ∀ r, u.fields.registryId = .set (some r) → ∀ p ∈ l.peers, u.appliesTo p = true →
      ∀ row, p.owner = .cell row → (row.id, r) ∈ statuses) : (l.updateAll u).Heard statuses := by
  have hsave : ∀ p : UvnPeer, (∀ row, p.save.owner = .cell row → ∀ r, p.save.registryId.value = some r →
      (row.id, r) ∈ statuses) ↔ ∀ row, p.owner = .cell row → ∀ r, p.registryId.value = some r →
      (row.id, r) ∈ statuses := by
    intro p
    rw [p.owner_save, (values_save p).2.1]
  refine (forall_peers_updateAll hsave).mpr fun p hp row howner r hr => ?_
  rw [u.owner_apply] at howner
  by_cases happlies : u.appliesTo p = true
  · rw [apply_of_applies happlies] at hr
    have hr : (p.registryId.configure none u.fields.registryId).value = some r := hr
    cases harg : u.fields.registryId with
    | absent =>
      rw [harg] at hr
      exact h p hp row howner r hr
    | reset =>
      rw [harg] at hr
      cases hr
    | set id =>
      rw [harg, Tracked.value_configure_set] at hr
      exact hheard r (hr ▸ harg) p hp happlies row howner
  · rw [apply_of_not_applies (Bool.not_eq_true _ ▸ happlies)] at hr
    exact h p hp row howner r hr

theorem Heard.mono (h : l.Heard statuses) {statuses' : List (ℕ × String)} (hsub : statuses ⊆ statuses') :
    l.Heard statuses' := fun p hp row howner r hr => hsub (h p hp row howner r hr)

end UvnPeersList

namespace SyncAgent

variable {statuses : List (ℕ × String)}

/-- The agent of the registry, after any events. -/
structure Inv (statuses : List (ℕ × String)) (p : SyncAgent log uvnName) : Prop where
  agreed : p.peers.Agreed
  heard : p.peers.Heard statuses

theorem Inv.start (statuses : List (ℕ × String)) {v : ℕ} {rows : PeerOwner → Option PeerRow} {tsStart : Timestamp}
    {p : SyncAgent log uvnName} (hstart : SyncAgent.start v rows tsStart = .ok p) : p.version = v ∧ p.Inv statuses := by
  obtain ⟨peers, hpeers, heq⟩ := Except.bind_eq_ok_iff.mp hstart
  rw [← Except.ok.inj heq]
  have hload : (UvnPeersList.load (log.agent uvnName v) rows).Agreed := fun h => absurd h Bool.false_ne_true
  have hheard : (UvnPeersList.load (log.agent uvnName v) rows).Heard statuses := by
    intro q hq row howner r hr
    rw [(UvnPeersList.mem_peers_load hq).2.1] at hr
    cases hr
  rw [← Except.ok.inj hpeers]
  refine ⟨rfl, hload.updateAll (fun h => by cases h), hheard.updateAll fun r hr q hq happlies row howner => ?_⟩
  -- only the peer of the registry is updated
  have hmem := List.mem_singleton.mp (of_decide_eq_true happlies)
  rw [howner] at hmem
  cases hmem

theorem registryId_call {l : UvnPeersList (log.agent uvnName version)} {e : SpinEvent} {u : Update}
    (hu : l.call e.toPeersEvent = some u) :
    u.fields.registryId = .absent ∨ ∃ name c registryId routed known tsStart handle writer,
      e = .onReaderDataCellInfo name c registryId routed known tsStart handle writer ∧
        u.fields.registryId = .ofOption registryId ∧ ∃ row, row.id = c ∧ u.targets = some [.cell row] := by
  cases e with
  | onRemoteWritersStatus onlineWriters =>
    obtain ⟨owners, rfl, -⟩ := UvnPeersList.call_onRemoteWritersStatus hu
    exact .inl rfl
  | onInstanceOffline handle =>
    obtain ⟨-, p, -, -, rfl⟩ := UvnPeersList.call_onInstanceOffline hu
    exact .inl rfl
  | onReaderDataCellInfo name c registryId routed known tsStart handle writer =>
    obtain ⟨-, row, -, hid, rfl⟩ := UvnPeersList.call_onReaderDataCellInfo hu
    exact .inr ⟨name, c, registryId, routed, known, tsStart, handle, writer, rfl, rfl, row, hid, rfl⟩
  | updatePeerVpnStats cell vpnInterfaces online =>
    rw [← Option.some.inj hu]
    exact .inl rfl

theorem Inv.event {p p' : SyncAgent log uvnName} (h : p.Inv statuses) {e : SpinEvent}
    (hheard : ∀ name c registryId routed known tsStart handle writer,
      e = .onReaderDataCellInfo name c registryId routed known tsStart handle writer →
        ∀ r, registryId = some r → (c, r) ∈ statuses)
    (hevent : p.event e = .ok p') : p'.version = p.version ∧ p'.Inv statuses := by
  obtain ⟨peers, hpeers, heq⟩ := Except.bind_eq_ok_iff.mp hevent
  rw [← Except.ok.inj heq]
  refine ⟨rfl, ?_⟩
  unfold UvnPeersList.step at hpeers
  cases hcall : p.peers.call e.toPeersEvent with
  | none =>
    rw [hcall] at hpeers
    rw [← Except.ok.inj hpeers]
    exact h
  | some u =>
    rw [hcall] at hpeers
    rw [← Except.ok.inj hpeers]
    rcases registryId_call hcall with habsent | ⟨name, c, registryId, routed, known, ts, handle, writer, rfl, harg, row,
      hid, htargets⟩
    · refine ⟨h.agreed.updateAll ?_, h.heard.updateAll fun r hr => ?_⟩
      · rw [habsent]
        exact fun h => by cases h
      · rw [habsent] at hr
        cases hr
    · have hset : ∀ r, u.fields.registryId = .set (some r) → registryId = some r := by
        intro r hr
        rw [harg] at hr
        cases registryId with
        | none => cases hr
        | some r' => exact Arg.set.inj hr
      refine ⟨h.agreed.updateAll ?_, h.heard.updateAll fun r hr q hq happlies row' howner => ?_⟩
      · rw [harg]
        cases registryId with
        | none => exact fun h => by cases h
        | some r' => exact fun h => by cases h
      · have hmem : q.owner ∈ [PeerOwner.cell row] := by
          unfold Update.appliesTo at happlies
          rw [htargets] at happlies
          exact of_decide_eq_true happlies
        rw [howner] at hmem
        obtain rfl := PeerOwner.cell.inj (List.mem_singleton.mp hmem)
        rw [hid]
        exact hheard _ _ _ _ _ _ _ _ rfl r (hset r hr)

end SyncAgent

/-! ### Runs -/

namespace Network

variable {s s' s₀ : Network log uvnName}

/-- What is known of a cell: what it has, and what it reported before. -/
structure CellInv (s : Network log uvnName) (cell : ℕ) (a : CellAgent) (version : ℕ) : Prop where
  atVersion : AtVersion log cell version (s.received cell) a
  version_le : version ≤ s.received cell
  reported : ∀ r, (cell, r) ∈ s.statuses → ∃ w ≤ version, r = (log.release w).configId

structure Inv (s : Network log uvnName) : Prop where
  received_le : ∀ c, s.received c ≤ s.issued
  samples : ∀ m ∈ s.samples, m.version ≤ s.issued ∧ (log.release m.version).Active m.cell
  installed : ∀ c a, s.cells c = some a → ∃ version, s.CellInv c a version
  reported : ∀ c r, (c, r) ∈ s.statuses → ∃ a, s.cells c = some a
  sync : ∀ p, s.sync = some p → p.Inv s.statuses ∧ p.version ≤ s.issued

theorem CellInv.congr {a : CellAgent} (h : s.CellInv cell a version) (hreceived : s'.received cell = s.received cell)
    (hstatuses : ∀ r, (cell, r) ∈ s'.statuses → (cell, r) ∈ s.statuses) : s'.CellInv cell a version := by
  refine ⟨?_, ?_, fun r hr => h.reported r (hstatuses r hr)⟩
  · rw [hreceived]
    exact h.atVersion
  · rw [hreceived]
    exact h.version_le

theorem Inv.installed_congr (h : s.Inv) (hcells : s'.cells = s.cells) (hreceived : s'.received = s.received)
    (hstatuses : s'.statuses = s.statuses) : ∀ c a, s'.cells c = some a → ∃ version, s'.CellInv c a version := by
  intro c a ha
  rw [hcells] at ha
  obtain ⟨version, hinv⟩ := h.installed c a ha
  refine ⟨version, hinv.congr (congrFun hreceived c) fun r hr => ?_⟩
  rwa [hstatuses] at hr

theorem Inv.init : (init log uvnName).Inv := by
  refine ⟨fun c => le_rfl, fun m hm => ?_, fun c a ha => ?_, fun c r hr => ?_, fun p hp => ?_⟩
  · cases hm
  · cases ha
  · cases hr
  · cases hp

/-- A cell takes a step after which it has the same or a later configuration. -/
theorem Inv.stepCell (orders : KeyOrders) (h : s.Inv) {cell : ℕ} (act : CellAct) (received : ℕ → ℕ)
    (hother : ∀ c, c ≠ cell → received c = s.received c) (hle : s.received cell ≤ received cell)
    (hissued : received cell ≤ s.issued)
    (hstep : ∀ a version, s.cells cell = some a → s.CellInv cell a version →
      ∃ v, version ≤ v ∧ v ≤ received cell ∧ AtVersion log cell v (received cell) (a.step orders act)) :
    Inv { s.stepCell orders cell act with received := received } := by
  have hreceived : ∀ c, received c ≤ s.issued := fun c => by
    by_cases hc : c = cell
    · rwa [hc]
    · rw [hother c hc]
      exact h.received_le c
  unfold Network.stepCell
  cases ha : s.cells cell with
  | none =>
    refine ⟨hreceived, h.samples, fun c a hcell => ?_, h.reported, h.sync⟩
    have hc : c ≠ cell := fun heq => by
      have hcell : s.cells c = some a := hcell
      rw [heq, ha] at hcell
      cases hcell
    obtain ⟨version, hinv⟩ := h.installed c a hcell
    exact ⟨version, hinv.congr (hother c hc) fun r hr => hr⟩
  | some a =>
    obtain ⟨version, hinv⟩ := h.installed cell a ha
    obtain ⟨v, hle', hv, hat⟩ := hstep a version ha hinv
    have hstatus : ∀ c r, (c, r) ∈ s.statuses ++ ((a.step orders act).status.map fun r => (cell, r)).toList →
        (c, r) ∈ s.statuses ∨ c = cell ∧ r = (log.release v).configId := by
      intro c r hr
      rcases List.mem_append.mp hr with hold | hnew
      · exact .inl hold
      · obtain ⟨r', hr', heq⟩ := Option.map_eq_some_iff.mp (Option.mem_toList.mp hnew)
        obtain ⟨rfl, rfl⟩ := Prod.mk.inj heq
        exact .inr ⟨rfl, hat.status hr'⟩
    refine ⟨hreceived, h.samples, fun c a' hcell => ?_, fun c r hr => ?_, fun p hp => ?_⟩
    · by_cases hc : c = cell
      · subst hc
        have hcell : some (a.step orders act) = some a' := (if_pos rfl).symm.trans hcell
        obtain rfl := Option.some.inj hcell
        refine ⟨v, hat, hv, fun r hr => ?_⟩
        rcases hstatus c r hr with hold | ⟨-, hr⟩
        · obtain ⟨w, hw, hr⟩ := hinv.reported r hold
          exact ⟨w, hw.trans hle', hr⟩
        · exact ⟨v, le_rfl, hr⟩
      · have hcell : s.cells c = some a' := (if_neg hc).symm.trans hcell
        obtain ⟨version', hinv'⟩ := h.installed c a' hcell
        exact ⟨version', hinv'.congr (hother c hc) fun r hr => (hstatus c r hr).resolve_right fun hnew => hc hnew.1⟩
    · show ∃ a', (if c = cell then some (a.step orders act) else s.cells c) = some a'
      by_cases hc : c = cell
      · exact ⟨_, if_pos hc⟩
      · rw [if_neg hc]
        exact h.reported c r ((hstatus c r hr).resolve_right fun hnew => hc hnew.1)
    · obtain ⟨hp, hissued'⟩ := h.sync p hp
      exact ⟨⟨hp.agreed, hp.heard.mono (List.subset_append_left _ _)⟩, hissued'⟩

theorem Inv.step (h : s.Inv) {act : NetworkAct} (hok : s.Permitted act) (hstep : s.step orders act = .ok s') :
    s'.Inv := by
  cases act with
  | generate =>
    rw [← Except.ok.inj hstep]
    refine ⟨fun c => (h.received_le c).trans (Nat.le_succ _), fun m hm => ?_, h.installed_congr rfl rfl rfl, h.reported,
      fun p hp => ?_⟩
    · exact ⟨(h.samples m hm).1.trans (Nat.le_succ _), (h.samples m hm).2⟩
    · exact ⟨(h.sync p hp).1, (h.sync p hp).2.trans (Nat.le_succ _)⟩
  | sync rows tsStart =>
    obtain ⟨p, hp, heq⟩ := Except.bind_eq_ok_iff.mp hstep
    rw [← Except.ok.inj heq]
    refine ⟨h.received_le, h.samples, h.installed_congr rfl rfl rfl, h.reported, fun p' hp' => ?_⟩
    obtain rfl := Option.some.inj hp'
    obtain ⟨hversion, hinv⟩ := SyncAgent.Inv.start s.statuses hp
    exact ⟨hinv, hversion.le⟩
  | endSync =>
    rw [← Except.ok.inj hstep]
    refine ⟨h.received_le, h.samples, h.installed_congr rfl rfl rfl, h.reported, fun p hp => ?_⟩
    cases hp
  | publish cell version =>
    unfold Network.step at hstep
    cases hsync : s.sync with
    | none =>
      rw [hsync] at hstep
      rw [← Except.ok.inj hstep]
      exact h
    | some p =>
      rw [hsync] at hstep
      rw [← Except.ok.inj hstep]
      refine ⟨h.received_le, fun m hm => ?_, h.installed_congr rfl rfl rfl, h.reported,
        fun q hq => h.sync q (hsync.trans hq)⟩
      rcases List.mem_append.mp hm with hold | hnew
      · exact h.samples m hold
      · rw [List.mem_singleton.mp hnew]
        exact hok
  | event e =>
    unfold Network.step at hstep
    cases hsync : s.sync with
    | none =>
      rw [hsync] at hstep
      rw [← Except.ok.inj hstep]
      exact h
    | some p =>
      rw [hsync] at hstep
      obtain ⟨p', hp', heq⟩ := Except.bind_eq_ok_iff.mp hstep
      rw [← Except.ok.inj heq]
      obtain ⟨hinv, hissued⟩ := h.sync p hsync
      refine ⟨h.received_le, h.samples, h.installed_congr rfl rfl rfl, h.reported, fun q hq => ?_⟩
      obtain rfl := Option.some.inj hq
      have hheard : ∀ name c registryId routed known tsStart handle writer,
          e = .onReaderDataCellInfo name c registryId routed known tsStart handle writer →
            ∀ r, registryId = some r → (c, r) ∈ s.statuses := by
        rintro name c registryId routed known tsStart handle writer rfl
        exact hok
      obtain ⟨hversion, hinv'⟩ := hinv.event hheard hp'
      exact ⟨hinv', hversion ▸ hissued⟩
  | install cell version =>
    obtain ⟨hissued, hactive, hle, -⟩ := hok
    rw [← Except.ok.inj hstep]
    refine ⟨fun c => ?_, h.samples, fun c a ha => ?_, fun c r hr => ?_, h.sync⟩
    · show (if c = cell then version else s.received c) ≤ s.issued
      split_ifs
      · exact hissued
      · exact h.received_le c
    · by_cases hc : c = cell
      · subst hc
        have ha : some _ = some a := (if_pos rfl).symm.trans ha
        obtain rfl := Option.some.inj ha
        have hreceived : (if c = c then version else s.received c) = version := if_pos rfl
        refine ⟨version, ⟨HasDatabase.install hactive, trivial, version, le_rfl, rfl⟩, hreceived.ge, fun r hr => ?_⟩
        obtain ⟨a, ha⟩ := h.reported c r hr
        obtain ⟨v, hinv⟩ := h.installed c a ha
        obtain ⟨w, hw, hr⟩ := hinv.reported r hr
        exact ⟨w, (hw.trans hinv.version_le).trans hle, hr⟩
      · have ha : s.cells c = some a := (if_neg hc).symm.trans ha
        obtain ⟨v, hinv⟩ := h.installed c a ha
        exact ⟨v, hinv.congr (if_neg hc) fun r hr => hr⟩
    · show ∃ a, (if c = cell then some _ else s.cells c) = some a
      split_ifs
      · exact ⟨_, rfl⟩
      · exact h.reported c r hr
  | receive sample loads =>
    obtain ⟨hmem, hle⟩ := hok
    obtain ⟨hissued, hactive⟩ := h.samples sample hmem
    rw [← Except.ok.inj hstep]
    have hreceived : (if sample.cell = sample.cell then sample.version else s.received sample.cell) = sample.version :=
      if_pos rfl
    refine h.stepCell orders _ (fun c => if c = sample.cell then sample.version else s.received c)
      (fun c hc => if_neg hc) (hle.trans hreceived.ge) (hreceived.le.trans hissued) fun a version ha hinv => ?_
    show ∃ v, version ≤ v ∧ v ≤ (if sample.cell = sample.cell then sample.version else s.received sample.cell) ∧
      AtVersion log sample.cell v (if sample.cell = sample.cell then sample.version else s.received sample.cell) _
    rw [hreceived]
    have hversion : version ≤ sample.version := hinv.version_le.trans hle
    refine ⟨version, le_rfl, hversion, (hinv.atVersion.mono hle).onData sample.registryId fun p hp => ?_⟩
    cases loads with
    | false => cases hp
    | true => exact ⟨sample.version, hversion, le_rfl, hactive, (Option.some.inj hp).symm⟩
  | cell cell act =>
    rw [← Except.ok.inj hstep]
    have hinv' := h.stepCell orders act s.received (fun _ _ => rfl) le_rfl
      (h.received_le cell) fun a version _ hinv => hinv.atVersion.step orders hinv.version_le hok
    have heq : { s.stepCell orders cell act with received := s.received } = s.stepCell orders cell act := by
      unfold Network.stepCell
      cases s.cells cell <;> rfl
    rwa [heq] at hinv'

/-! ### Runs of one cell -/

/-- The network once the agent of one cell has gone on, and has reported the configuration with which it spins. -/
structure GoesOn (s s' : Network log uvnName) (c : ℕ) (a : CellAgent) : Prop where
  cell : s'.cells c = some a
  others : ∀ d, d ≠ c → s'.cells d = s.cells d
  reported : ∀ r, a.status = some r → (c, r) ∈ s'.statuses
  sync : s'.sync = s.sync
  samples : s'.samples = s.samples
  statuses : s.statuses ⊆ s'.statuses

theorem goesOn_stepCell (orders : KeyOrders) {c : ℕ} {a : CellAgent} (ha : s.cells c = some a) (act : CellAct) :
    s.GoesOn (s.stepCell orders c act) c (a.step orders act) ∧ (s.stepCell orders c act).received = s.received := by
  unfold Network.stepCell
  rw [ha]
  refine ⟨⟨if_pos rfl, fun d hd => if_neg hd, fun r hr => List.mem_append_right _ ?_, rfl, rfl,
    List.subset_append_left _ _⟩, rfl⟩
  rw [hr]
  exact List.mem_singleton_self _

theorem GoesOn.trans {s'' : Network log uvnName} {c : ℕ} {a a' : CellAgent} (h : s.GoesOn s' c a)
    (h' : s'.GoesOn s'' c a') : s.GoesOn s'' c a' :=
  ⟨h'.cell, fun d hd => (h'.others d hd).trans (h.others d hd), h'.reported, h'.sync.trans h.sync,
    h'.samples.trans h.samples, fun _ hmem => h'.statuses (h.statuses hmem)⟩

theorem GoesOn.run (orders : KeyOrders) {c : ℕ} {a : CellAgent} (h : s.GoesOn s' c a) (acts : List CellAct)
    (hacts : ∀ act ∈ acts, ∀ registryId p, act ≠ .data registryId p) :
    ∃ s'', Run.Reaches (Network.step orders) Network.Permitted s' s'' ∧ s.GoesOn s'' c (a.run orders acts) ∧
      s''.received = s'.received := by
  induction acts generalizing s' a with
  | nil => exact ⟨s', .refl, h, rfl⟩
  | cons act acts ih =>
    obtain ⟨hstep, hreceived⟩ := goesOn_stepCell orders h.cell act
    obtain ⟨s'', hrun, hgoes, hsame⟩ := ih (h.trans hstep) fun act' hact => hacts act' (.tail _ hact)
    have hone : Run.Reaches (Network.step orders) Network.Permitted s' (s'.stepCell orders c act) :=
      Run.Reaches.refl.step (NetworkAct.cell c act) (hacts act (.head _)) rfl
    exact ⟨s'', hone.trans hrun, hgoes, hsame.trans hreceived⟩

/-- The steps of `takeOver` are steps of the network. -/
theorem reaches_takeOver (orders : KeyOrders) {m : BackboneSample} (hm : m ∈ s.samples)
    (horder : s.received m.cell ≤ m.version) {a : CellAgent} (ha : s.cells m.cell = some a) :
    ∃ s', Run.Reaches (Network.step orders) Network.Permitted s s' ∧
      s.GoesOn s' m.cell (a.run orders (((log.release m.version).package m.cell).takeOver m.registryId)) := by
  obtain ⟨hkill, hreceived⟩ := goesOn_stepCell orders ha .kill
  obtain ⟨s₁, hrun₁, hstarted, hreceived₁⟩ := hkill.run orders [.start, .progress] fun act hact registryId p => by
    rcases List.mem_pair.mp hact with rfl | rfl
    · exact fun h => by cases h
    · exact fun h => by cases h
  have hdata := hstarted.trans
    (goesOn_stepCell orders hstarted.cell (.data m.registryId (some ((log.release m.version).package m.cell)))).1
  have hreceive : s.GoesOn { s₁.stepCell orders m.cell (.data m.registryId (some _)) with
      received := fun c => if c = m.cell then m.version else s₁.received c } m.cell _ :=
    ⟨hdata.cell, hdata.others, hdata.reported, hdata.sync, hdata.samples, hdata.statuses⟩
  obtain ⟨s₂, hrun₂, hgoes, -⟩ := hreceive.run orders (List.replicate 8 .progress) fun act hact registryId p => by
    rw [List.eq_of_mem_replicate hact]
    exact fun h => by cases h
  have hrun := (Run.Reaches.refl.step (NetworkAct.cell m.cell .kill) (fun _ _ h => by cases h) rfl).trans hrun₁
  have hrun := hrun.step (NetworkAct.receive m true)
    ⟨hstarted.samples ▸ hm, (congrFun (hreceived₁.trans hreceived) m.cell).trans_le horder⟩ rfl
  exact ⟨s₂, hrun.trans hrun₂, hgoes⟩

theorem Inv.takeOver (hinv : s.Inv) (orders : KeyOrders) {m : BackboneSample} (hm : m ∈ s.samples)
    (horder : s.received m.cell ≤ m.version) {a : CellAgent} (ha : s.cells m.cell = some a) (hstart : a.root.Startable)
    (hname : m.registryId = a.root.configId → (log.release m.version).configId = a.root.configId) :
    AtVersion log m.cell m.version m.version
        (a.run orders (((log.release m.version).package m.cell).takeOver m.registryId)) ∧
      (a.run orders (((log.release m.version).package m.cell).takeOver m.registryId)).status =
        some (log.release m.version).configId := by
  obtain ⟨version, hcell⟩ := hinv.installed m.cell a ha
  exact hcell.atVersion.takeOver orders hstart (hcell.version_le.trans horder) (hinv.samples m hm).2 hname

theorem replicate_injective : Function.Injective fun v => String.ofList (List.replicate v 'x') := by
  intro v w h
  have hlength := congrArg List.length (String.ofList_injective h)
  rwa [List.length_replicate, List.length_replicate] at hlength

/-- The first configuration of the example has the first keys of cell 1, and the later ones its new keys. -/
structure ExampleDatabases where
  linked : ℕ → CellPackage
  rekeyed : ℕ → CellPackage
  madeLinked : ∀ row ∈ linkedState.uvn.cells,
    linkedState.cellPackage (packageSetup.withAllowedIps []) linkedIds row = .ok (linked row.id)
  madeRekeyed : ∀ row ∈ rekeyedState.uvn.cells,
    rekeyedState.cellPackage (packageSetup.withAllowedIps []) rekeyedIds row = .ok (rekeyed row.id)

theorem exists_exampleDatabases : Nonempty ExampleDatabases := by
  obtain ⟨p, hp⟩ : ∃ p, linkedState.cellPackage (packageSetup.withAllowedIps []) linkedIds
    (linkedCell 1 "a.example.com") = .ok p := ⟨_, rfl⟩
  obtain ⟨q, hq⟩ : ∃ q, linkedState.cellPackage (packageSetup.withAllowedIps []) linkedIds
    (linkedCell 2 "b.example.com") = .ok q := ⟨_, rfl⟩
  obtain ⟨p', hp'⟩ : ∃ p, rekeyedState.cellPackage (packageSetup.withAllowedIps []) rekeyedIds
    (linkedCell 1 "a.example.com") = .ok p := ⟨_, rfl⟩
  obtain ⟨q', hq'⟩ : ∃ q, rekeyedState.cellPackage (packageSetup.withAllowedIps []) rekeyedIds
    (linkedCell 2 "b.example.com") = .ok q := ⟨_, rfl⟩
  refine ⟨⟨fun c => if c = 1 then p else q, fun c => if c = 1 then p' else q', fun row hrow => ?_, fun row hrow => ?_⟩⟩
  · rw [mem_linkedState] at hrow
    rcases List.mem_pair.mp hrow with rfl | rfl
    · exact hp
    · exact hq
  · rw [mem_rekeyedState] at hrow
    rcases List.mem_pair.mp hrow with rfl | rfl
    · exact hp'
    · exact hq'

def exampleRelease (dbs : ExampleDatabases) : ℕ → Release
  | 0 =>
    { configId := ""
      setup := packageSetup
      state := linkedState
      ids := linkedIds
      allowedIps := fun _ => []
      database := dbs.linked
      reachable := reachable_linkedState
      unique := unique_linkedState
      made := dbs.madeLinked }
  | v + 1 =>
    { configId := String.ofList (List.replicate (v + 1) 'x')
      setup := packageSetup
      state := rekeyedState
      ids := rekeyedIds
      allowedIps := fun _ => []
      database := dbs.rekeyed
      reachable := reachable_rekeyedState
      unique := unique_rekeyedState
      made := dbs.madeRekeyed }

theorem exampleRelease_ids (dbs : ExampleDatabases) (v : ℕ) : ∃ a b, (exampleRelease dbs v).ids = rowIds a b := by
  cases v with
  | zero => exact ⟨_, _, rfl⟩
  | succ v => exact ⟨_, _, rfl⟩

theorem sameIds_of_rowIds {c : ℕ} (h h' : Handout c) (hids : ∃ a b, h.ids = rowIds a b)
    (hids' : ∃ a b, h'.ids = rowIds a b) : h.package.keys.SameIds h'.package.keys := by
  obtain ⟨a, b, hids⟩ := hids
  obtain ⟨a', b', hids'⟩ := hids'
  refine Handout.sameIds_of_ids ?_ ?_
  · rw [hids, hids']
    exact asymm_rowIds
  · rw [hids, hids']
    exact symm_rowIds

def exampleLog (dbs : ExampleDatabases) : ReleaseLog where
  release := exampleRelease dbs
  configId_injective := by
    have heq : (fun v => (exampleRelease dbs v).configId) = fun v => String.ofList (List.replicate v 'x') := by
      funext v
      cases v with
      | zero => rfl
      | succ v => rfl
    rw [heq]
    exact replicate_injective
  sameIds v w _ c hv hw := by
    obtain ⟨row, hrow, hid⟩ := hv
    obtain ⟨row', hrow', hid'⟩ := hw
    exact sameIds_of_rowIds ((exampleRelease dbs v).handout hrow hid) ((exampleRelease dbs w).handout hrow' hid')
      (exampleRelease_ids dbs v) (exampleRelease_ids dbs w)

theorem exampleLog_active (dbs : ExampleDatabases) (v : ℕ) {c : ℕ} (hc : c = 1 ∨ c = 2) :
    ((exampleLog dbs).release v).Active c := by
  have hcells : ((exampleLog dbs).release v).state.uvn.cells =
      [linkedCell 1 "a.example.com", linkedCell 2 "b.example.com"] := by
    cases v with
    | zero => rfl
    | succ v => rfl
  unfold Release.Active
  rw [hcells]
  rcases hc with rfl | rfl
  · exact ⟨_, .head _, rfl⟩
  · exact ⟨_, .tail _ (.head _), rfl⟩

/-- The agent of the registry, with the second configuration. -/
def exampleSyncAgent : Agent := ⟨rekeyedState.uvn, "uvn", String.ofList (List.replicate 1 'x'), .registry⟩

/-- A cell reports the second configuration. -/
def exampleEvent (cell : ℕ) : SpinEvent :=
  .onReaderDataCellInfo "uvn" cell (some (String.ofList (List.replicate 1 'x'))) ∅ ∅ none (some 7) none

theorem exampleSyncAgent_hears : ∃ l l' l'' : UvnPeersList exampleSyncAgent,
    (UvnPeersList.load exampleSyncAgent fun _ => none).step (.online {
      registryId := .set (some exampleSyncAgent.configId)
      routedNetworks := .set ∅
      tsStart := .set (some ⟨0⟩) }) = .ok l ∧
    l.step (exampleEvent 2).toPeersEvent = .ok l' ∧ l'.step (exampleEvent 1).toPeersEvent = .ok l'' ∧
    l''.statusConsistentConfigUvn = true :=
  ⟨_, _, _, rfl, rfl, rfl, by decide +kernel⟩

theorem exampleLog_consistent (dbs : ExampleDatabases) :
    ∃ l l' l'' : UvnPeersList ((exampleLog dbs).agent "uvn" 1),
      SyncAgent.start 1 (fun _ => none) ⟨0⟩ = .ok ⟨1, l⟩ ∧
      SyncAgent.event ⟨1, l⟩ (exampleEvent 2) = .ok ⟨1, l'⟩ ∧ SyncAgent.event ⟨1, l'⟩ (exampleEvent 1) = .ok ⟨1, l''⟩ ∧
      SyncAgent.untilConsistent ⟨1, l''⟩ true = true := by
  obtain ⟨l, l', l'', hl, hl', hl'', hflag⟩ := exampleSyncAgent_hears
  refine ⟨l, l', l'', Except.bind_eq_ok_iff.mpr ⟨l, hl, rfl⟩, Except.bind_eq_ok_iff.mpr ⟨l', hl', rfl⟩,
    Except.bind_eq_ok_iff.mpr ⟨l'', hl'', rfl⟩, ?_⟩
  unfold SyncAgent.untilConsistent
  rw [if_pos (Bool.and_eq_true_iff.mpr ⟨rfl, hflag⟩)]

theorem step_sync {orders : KeyOrders} {rows : PeerOwner → Option PeerRow} {tsStart : Timestamp}
    {p : SyncAgent log uvnName} (h : SyncAgent.start s.issued rows tsStart = .ok p) :
    s.step orders (.sync rows tsStart) = .ok { s with sync := some p } :=
  Except.bind_eq_ok_iff.mpr ⟨p, h, rfl⟩

theorem step_event {orders : KeyOrders} {e : SpinEvent} {p p' : SyncAgent log uvnName} (hsync : s.sync = some p)
    (h : p.event e = .ok p') : s.step orders (.event e) = .ok { s with sync := some p' } := by
  unfold step
  rw [hsync]
  exact Except.bind_eq_ok_iff.mpr ⟨p', h, rfl⟩


def exampleOrders : KeyOrders := ⟨fun _ _ => true, fun _ _ => true⟩

/-- Both cells are installed, cell 1 with the first configuration and cell 2 with the second, and the agent of the
registry publishes the package of cell 1. -/
structure ExamplePublished (dbs : ExampleDatabases) (p : SyncAgent (exampleLog dbs) "uvn")
    (s : Network (exampleLog dbs) "uvn") : Prop where
  reaches : Run.Reaches (Network.step exampleOrders) Network.Permitted
    (Network.init (exampleLog dbs) "uvn") s
  sync : s.sync = some p
  sample : ⟨1, ((exampleLog dbs).release 1).configId, 1⟩ ∈ s.samples
  received : s.received 1 = 0
  first : s.cells 1 = some ⟨.install (((exampleLog dbs).release 0).package 1), .stopped⟩
  second : s.cells 2 = some ⟨.install (((exampleLog dbs).release 1).package 2), .stopped⟩

theorem exists_examplePublished (dbs : ExampleDatabases) {l : UvnPeersList ((exampleLog dbs).agent "uvn" 1)}
    (hl : SyncAgent.start 1 (fun _ => none) ⟨0⟩ = .ok ⟨1, l⟩) : ∃ s, ExamplePublished dbs ⟨1, l⟩ s := by
  have hrun : Run.Reaches (Network.step exampleOrders) Network.Permitted
      (Network.init (exampleLog dbs) "uvn") (Network.init (exampleLog dbs) "uvn") := .refl
  have hrun := hrun.step (NetworkAct.install 1 0)
    ⟨le_rfl, exampleLog_active dbs 0 (.inl rfl), le_rfl, fun a ha => by cases ha⟩ rfl
  have hrun := hrun.step NetworkAct.generate trivial rfl
  have hrun := hrun.step (NetworkAct.install 2 1)
    ⟨le_rfl, exampleLog_active dbs 1 (.inr rfl), Nat.zero_le 1, fun a ha => by cases ha⟩ rfl
  have hrun := hrun.step (NetworkAct.sync (fun _ => none) ⟨0⟩) rfl (step_sync hl)
  have hrun := hrun.step (NetworkAct.publish 1 1) ⟨le_rfl, exampleLog_active dbs 1 (.inl rfl)⟩ rfl
  exact ⟨_, hrun, rfl, List.mem_singleton_self _, rfl, rfl, rfl⟩

theorem exampleLog_renamed (dbs : ExampleDatabases) :
    ((exampleLog dbs).release 1).configId ≠ ((exampleLog dbs).release 0).configId :=
  fun h => absurd ((exampleLog dbs).configId_injective h) Nat.one_ne_zero

end Network

end Uno
