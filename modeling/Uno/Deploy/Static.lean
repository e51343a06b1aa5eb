import Uno.Deploy.Deployments
import Uno.Registry.Uvn

/-!
# The static strategy

The peers map of the static strategy passes through the settings and through the strategy object before it is
deployed. The settings hash their arguments whenever these are set, and a dictionary has no hash: no peers map can be
configured. And if it could, `Registry.redeploy` makes a strategy object and passes the arguments to its `deploy`,
while the peers map is read from the arguments when the object is made: what is deployed is the map of no arguments,
whatever map is declared (`redeployStatic_eq`). So the deployment follows its declaration exactly when no dictionary
was ever given (`redeploy_follows_iff`).
-/

namespace Uno

/-- The value of the peers map: pairs of a peer and its peers, or a mapping from peers to peers. -/
inductive PeersMapValue where
  | pairs (items : List (ℕ × List ℕ))
  | mapping (items : List (ℕ × List ℕ))
  deriving DecidableEq

def PeersMapValue.items : PeersMapValue → List (ℕ × List ℕ)
  | pairs items => items
  | mapping items => items

/-- The strategy arguments, of which only the peers map is used. -/
structure StrategyArgs where
  peersMap : Option PeersMapValue
  deriving DecidableEq

namespace StrategyArgs

/-- `{}`. -/
def empty : StrategyArgs := ⟨none⟩

/-- The declared map: each peer with its peers. -/
def declared (args : StrategyArgs) : List (ℕ × List ℕ) := (args.peersMap.map PeersMapValue.items).getD []

end StrategyArgs

/-- A Python value in the place of the strategy arguments. -/
inductive ArgsValue where
  | none
  /-- Any other value that has a hash, such as a number or a text. -/
  | scalar (value : String)
  | list (values : List String)
  | dict (args : StrategyArgs)
  deriving DecidableEq

namespace ArgsValue

/-- `hash`. -/
def hash : ArgsValue → Result Unit
  | none => .ok ()
  | scalar _ => .ok ()
  | list _ => .error (.type "unhashable type: 'list'")
  | dict _ => .error (.type "unhashable type: 'dict'")

/-- The value has a hash. -/
def Hashable (v : ArgsValue) : Prop := v.hash = .ok ()

/-- What the value declares, which is something only if it is a dictionary. -/
def declared : ArgsValue → List (ℕ × List ℕ)
  | dict args => args.declared
  | _ => []

/-- `args or {}`. -/
def orEmpty : ArgsValue → ArgsValue
  | none => .dict .empty
  | scalar "" => .dict .empty
  | list [] => .dict .empty
  | v => v

theorem declared_of_hashable {v : ArgsValue} (hv : v.Hashable) : v.declared = [] := by
  cases v with
  | none => rfl
  | scalar value => rfl
  | list values => cases hv
  | dict args => cases hv

end ArgsValue

/-! ### The settings -/

/-- What is given for the arguments: a text is loaded as YAML, any other value is taken as it is. -/
inductive ArgsInput where
  | text (yaml : String)
  | value (v : ArgsValue)

/-- `DeploymentSettings`, whose strategy is the static one. -/
structure DeploymentSettings where
  strategyArgs : ArgsValue

namespace DeploymentSettings

variable (yamlLoad : String → Result ArgsValue)

def prepareStrategyArgs : ArgsInput → Result ArgsValue
  | .text yaml => yamlLoad yaml
  | .value v => .ok v

/-- `__update_hash__`. The strategy is an enumerator, which always has a hash. -/
def updateHash (s : DeploymentSettings) : Result Unit := s.strategyArgs.hash

/-- The descriptor's `set`, and whether the value has changed. `None` leaves the value alone. -/
def store (s : DeploymentSettings) (input : ArgsInput) : Result (DeploymentSettings × Bool) := do
  let v ← prepareStrategyArgs yamlLoad input
  if v = .none then .ok (s, false)
  else if s.strategyArgs ≠ v then .ok ({ s with strategyArgs := v }, true)
  else .ok (s, false)

/-- A new object. It computes its hash when all its properties are set. -/
def new (input : ArgsInput) : Result DeploymentSettings := do
  let (s, _) ← store yamlLoad ⟨.none⟩ input
  s.updateHash
  .ok s

/-- `configure`: a property of an initialized object that changes updates the hash. -/
def configure (s : DeploymentSettings) (input : ArgsInput) : Result DeploymentSettings := do
  let (s, updated) ← s.store yamlLoad input
  if updated then s.updateHash
  .ok s

/-- Settings that are made and then configured, one time after the other. -/
def configured (first : ArgsInput) (later : List ArgsInput) : Result DeploymentSettings := do
  let s ← new yamlLoad first
  later.foldlM (configure yamlLoad) s

/-- What is given can be hashed when it has been loaded. -/
def Accepts (input : ArgsInput) : Prop := ∃ v, prepareStrategyArgs yamlLoad input = .ok v ∧ v.Hashable

variable {yamlLoad} {s s' : DeploymentSettings} {input : ArgsInput}

theorem store_eq {v : ArgsValue} (hv : prepareStrategyArgs yamlLoad input = .ok v) :
    store yamlLoad s input = if v = .none ∨ s.strategyArgs = v then .ok (s, false) else .ok (⟨v⟩, true) := by
  rw [store, hv]
  simp only [Except.ok_bind]
  by_cases hnone : v = .none
  · simp [hnone]
  · by_cases heq : s.strategyArgs = v
    · simp [heq]
    · simp [hnone, heq]

variable (yamlLoad input) in
theorem configure_spec (hs : s.strategyArgs.Hashable) :
    (Accepts yamlLoad input → ∃ s', configure yamlLoad s input = .ok s' ∧ s'.strategyArgs.Hashable) ∧
      (∀ s', configure yamlLoad s input = .ok s' → Accepts yamlLoad input) := by
  constructor
  · rintro ⟨v, hv, hhash⟩
    rw [configure, store_eq hv]
    by_cases hsame : v = .none ∨ s.strategyArgs = v
    · rw [if_pos hsame]
      exact ⟨s, rfl, hs⟩
    · rw [if_neg hsame]
      refine ⟨⟨v⟩, ?_, hhash⟩
      simp only [Except.ok_bind, if_true, updateHash]
      rw [hhash]
      rfl
  · intro s' hok
    obtain ⟨⟨s₁, updated⟩, hstore, hrest⟩ := Except.bind_eq_ok_iff.mp hok
    obtain ⟨v, hv, -⟩ := Except.bind_eq_ok_iff.mp hstore
    refine ⟨v, hv, ?_⟩
    rw [store_eq hv] at hstore
    by_cases hsame : v = .none ∨ s.strategyArgs = v
    · rcases hsame with rfl | rfl
      · rfl
      · exact hs
    · rw [if_neg hsame] at hstore
      obtain ⟨rfl, rfl⟩ := Prod.mk.inj (Except.ok.inj hstore)
      obtain ⟨_, hhash, -⟩ := Except.bind_eq_ok_iff.mp hrest
      exact hhash

theorem new_eq_configure : new yamlLoad input = configure yamlLoad ⟨.none⟩ input := by
  rw [new, configure]
  cases hv : prepareStrategyArgs yamlLoad input with
  | error e => rw [store, hv]; rfl
  | ok v =>
    rw [store_eq hv]
    by_cases hsame : v = .none ∨ ArgsValue.none = v
    · rw [if_pos hsame]
      rfl
    · rw [if_neg hsame]
      rfl

theorem configure_all_spec {later : List ArgsInput} (hs : s.strategyArgs.Hashable) :
    ((∀ input ∈ later, Accepts yamlLoad input) →
      ∃ s', later.foldlM (configure yamlLoad) s = .ok s' ∧ s'.strategyArgs.Hashable) ∧
      (∀ s', later.foldlM (configure yamlLoad) s = .ok s' → ∀ input ∈ later, Accepts yamlLoad input) := by
  induction later generalizing s with
  | nil => exact ⟨fun _ => ⟨s, rfl, hs⟩, fun _ _ input hmem => absurd hmem List.not_mem_nil⟩
  | cons input later ih =>
    obtain ⟨hto, hfrom⟩ := configure_spec yamlLoad input hs
    simp only [List.foldlM_cons, List.forall_mem_cons]
    constructor
    · rintro ⟨hinput, hlater⟩
      obtain ⟨s₁, hok, hs₁⟩ := hto hinput
      obtain ⟨s', hrest, hs'⟩ := (ih hs₁).1 hlater
      refine ⟨s', ?_, hs'⟩
      rw [hok]
      exact hrest
    · intro s' hok
      obtain ⟨s₁, hstep, hrest⟩ := Except.bind_eq_ok_iff.mp hok
      have hinput := hfrom s₁ hstep
      obtain ⟨s₂, hstep₂, hs₂⟩ := hto hinput
      obtain rfl : s₁ = s₂ := Except.ok.inj (hstep.symm.trans hstep₂)
      exact ⟨hinput, (ih hs₂).2 s' hrest⟩

variable (yamlLoad) in
/-- Settings come out of a history exactly if everything given in it has a hash; they have one, too, then. -/
theorem configured_spec (first : ArgsInput) (later : List ArgsInput) :
    ((∀ input ∈ first :: later, Accepts yamlLoad input) →
      ∃ s, configured yamlLoad first later = .ok s ∧ s.strategyArgs.Hashable) ∧
      (∀ s, configured yamlLoad first later = .ok s → ∀ input ∈ first :: later, Accepts yamlLoad input) := by
  have heq : configured yamlLoad first later = (first :: later).foldlM (configure yamlLoad) ⟨.none⟩ := by
    rw [configured, new_eq_configure, List.foldlM_cons]
  rw [heq]
  exact configure_all_spec rfl

end DeploymentSettings

/-! ### The strategy object -/

/-- The properties of a static strategy, in the order in which they are initialized. -/
structure StaticStrategy where
  peers : Finset ℕ
  args : ArgsValue
  privatePeers : Finset ℕ
  staticDeployment : List (ℕ × List ℕ)

namespace StaticStrategy

/-- `INITIAL_STATIC_DEPLOYMENT`, of an object whose arguments are those. Only pairs can be unpacked. -/
def initialStaticDeployment : ArgsValue → Result (List (ℕ × List ℕ))
  | .dict args =>
    match args.peersMap with
    | none => .ok []
    | some (.pairs items) => .ok items
    | some (.mapping []) => .ok []
    | some (.mapping (_ :: _)) => .error (.type "cannot unpack non-iterable int object")
  | _ => .error (.attribute "get")

/-- A new object without values for its properties: each gets its default. The default of `static_deployment` is
computed from the arguments the object has by then. -/
def new : Result StaticStrategy := do
  let args := .dict .empty
  let staticDeployment ← initialStaticDeployment args
  .ok ⟨∅, args, ∅, staticDeployment⟩

def publicPeers (s : StaticStrategy) : Finset ℕ := s.peers \ s.privatePeers

/-- `deploy`, which sets the arguments of the object first. -/
def deploy (s : StaticStrategy) (peers privatePeers : Finset ℕ) (args : ArgsValue)
    (networkMap : P2pLinkAllocationMap) : Result (P2pLinksMap × P2pLinkAllocationMap) :=
  let s := { s with peers := peers, privatePeers := privatePeers, args := args.orEmpty }
  let g := if s.publicPeers.card > 0 then StaticDeploymentStrategy.generateDeployment s.staticDeployment
    else emptyDeployment
  g.deploy networkMap

theorem deploy_nil {s : StaticStrategy} {peers privatePeers : Finset ℕ} {args : ArgsValue}
    {networkMap : P2pLinkAllocationMap} (hs : s.staticDeployment = []) :
    s.deploy peers privatePeers args networkMap = .ok (∅, networkMap) := by
  simp only [deploy, hs, StaticDeploymentStrategy.generateDeployment]
  rw [if_pos trivial, ite_self]
  rfl

end StaticStrategy

/-! ### Redeployment -/

namespace Uvn

/-- `Registry.redeploy`, when the settings select the static strategy. -/
def redeployStatic (u : Uvn) (settings : DeploymentSettings) (subnet : IPv4Network) : Result P2pLinksMap := do
  let strategy ← StaticStrategy.new
  let networkMap ← P2pLinkAllocationMap.new subnet
  let (deployment, _) ← strategy.deploy (u.cells.map CellRow.id).toFinset
    ((u.cells.filter CellRow.isPrivate).map CellRow.id).toFinset settings.strategyArgs networkMap
  .ok deployment

end Uvn

/-- A deployment has the declared links between declared peers, with ports in the order of the declaration. -/
structure FollowsDeclaration (declared : List (ℕ × List ℕ)) (d : P2pLinksMap) : Prop where
  links : ∀ a b, d.ListsPeer a b ↔ Lists declared a b ∧ b ∈ declared.map Prod.fst
  ports : ∀ a nbrs p, (a, nbrs) ∈ declared → d.get? a = some p → ∀ (i j b c : ℕ) (link link' : Link), i < j →
    nbrs[i]? = some b → nbrs[j]? = some c → p.peers.get? b = some link → p.peers.get? c = some link' →
      link.port < link'.port
  nonempty : declared ≠ [] → d.keys ≠ []

theorem followsDeclaration_nil : FollowsDeclaration [] ∅ where
  links a b := by simp [P2pLinksMap.ListsPeer, Lists]
  ports a nbrs p hmem := by simp at hmem
  nonempty h := absurd rfl h

/-- Whatever the arguments are, the deployment is empty. -/
theorem redeployStatic_eq {u : Uvn} {settings : DeploymentSettings} {subnet : IPv4Network}
    {networkMap : P2pLinkAllocationMap} (hnew : P2pLinkAllocationMap.new subnet = .ok networkMap) :
    u.redeployStatic settings subnet = .ok ∅ := by
  rw [Uvn.redeployStatic, hnew]
  simp only [StaticStrategy.new, StaticStrategy.initialStaticDeployment, StrategyArgs.empty, Except.ok_bind]
  rw [StaticStrategy.deploy_nil rfl]
  rfl

/-- The settings are made and configured, and what is deployed then follows the map that was declared in the end. -/
def DeploysAsDeclared (yamlLoad : String → Result ArgsValue) (u : Uvn) (first : ArgsInput)
    (later : List ArgsInput) (subnet : IPv4Network) : Prop :=
  ∃ settings d, DeploymentSettings.configured yamlLoad first later = .ok settings ∧
    u.redeployStatic settings subnet = .ok d ∧ FollowsDeclaration settings.strategyArgs.declared d

/-- The static strategy follows its declaration if and only if nothing that was given for the arguments is a
dictionary or a list. -/
theorem redeploy_follows_iff {yamlLoad : String → Result ArgsValue} {u : Uvn} {first : ArgsInput}
    {later : List ArgsInput} {subnet : IPv4Network} {networkMap : P2pLinkAllocationMap}
    (hnew : P2pLinkAllocationMap.new subnet = .ok networkMap) :
    DeploysAsDeclared yamlLoad u first later subnet ↔
      ∀ input ∈ first :: later, DeploymentSettings.Accepts yamlLoad input := by
  obtain ⟨hto, hfrom⟩ := DeploymentSettings.configured_spec yamlLoad first later
  constructor
  · rintro ⟨settings, d, hsettings, -, -⟩
    exact hfrom settings hsettings
  · intro haccepts
    obtain ⟨settings, hsettings, hhash⟩ := hto haccepts
    refine ⟨settings, ∅, hsettings, redeployStatic_eq hnew, ?_⟩
    rw [ArgsValue.declared_of_hashable hhash]
    exact followsDeclaration_nil

/-- Two public cells, declared to be linked to each other. -/
def twoCells : Uvn where
  owner := 1
  address := none
  enableRootVpn := false
  cellRows := [⟨1, 1, some "a", [], false⟩, ⟨2, 1, some "b", [], false⟩]
  particleRows := []
  nextCellId := 2
  nextParticleId := 0
  cellIds_nodup := by decide
  cellIds_le := by decide
  particleIds_nodup := Uvn.nodup_no_particleIds
  particleIds_le := Uvn.no_particleIds_le

/-- No arguments, and then an empty text. -/
theorem redeploy_follows_two :
    DeploysAsDeclared (fun _ => .ok .none) twoCells (.value .none) [.text ""] (network10 16 (by decide)) :=
  (@redeploy_follows_iff _ twoCells _ _ _ _ rfl).mpr
    (List.forall_mem_cons.mpr ⟨⟨_, rfl, rfl⟩, List.forall_mem_singleton.mpr ⟨_, rfl, rfl⟩⟩)

/-- Two peers that are declared to be linked. -/
def linkedArgs : StrategyArgs := ⟨some (.pairs [(1, [2]), (2, [1])])⟩

/-- The declared map cannot be configured, and settings that hold it deploy no link. -/
theorem redeploy_drops_link :
    (¬ ∀ (yamlLoad : String → Result ArgsValue) (u : Uvn) (args : StrategyArgs) (subnet : IPv4Network) networkMap,
      P2pLinkAllocationMap.new subnet = .ok networkMap →
      ((u.cells.map CellRow.id).toFinset \ ((u.cells.filter CellRow.isPrivate).map CellRow.id).toFinset).Nonempty →
      DeploysAsDeclared yamlLoad u (.value .none) [.value (.dict args)] subnet) ∧
    (∃ d, twoCells.redeployStatic ⟨.dict linkedArgs⟩ (network10 16 (by decide)) = .ok d ∧
      ¬ FollowsDeclaration linkedArgs.declared d) := by
  constructor
  · intro h
    obtain ⟨settings, d, hsettings, -, -⟩ := h (fun _ => .ok .none) twoCells linkedArgs
      (network10 16 (by decide)) _ rfl ⟨1, by decide⟩
    cases hsettings
  · exact ⟨∅, rfl, fun hfollows => hfollows.nonempty (by decide) rfl⟩

end Uno
