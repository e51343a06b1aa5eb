import Uno.Vpn.Ends
import Uno.Registry.Lans

/-!
# The allowed addresses of the backbone

`backbone_vpn` is a getter: it adds the LANs of the active cells to the allowed addresses of the
settings, in place, and the settings are saved with the UVN. What it added stays when a cell loses the
LAN.

In a run that takes a LAN away from the cells only while the settings do not list it, the backbone
always allows its subnet, the configured addresses, and the LANs of the active cells, whatever the run
did before (`allowed_of_histories`).
-/

namespace Uno

/-! ### The getter -/

/-- A row as a cell of the backbone. No row has an empty address. -/
def CellRow.toCell (c : CellRow) : Cell where
  address := c.address.filter (· ≠ "")
  allowedLans := c.allowedLans.map IPv4Network.toText
  address_ne := by
    cases c.address with
    | none => nofun
    | some a =>
      by_cases ha : a = ""
      · simp [ha]
      · simp [ha]

/-- `uvn.cells`. -/
def Uvn.backboneCells (u : Uvn) : Dict ℕ Cell where
  entries := u.cells.map fun c => (c.id, c.toCell)
  nodup := by
    rw [List.map_map]
    exact u.cellIds_nodup.sublist (List.filter_sublist.map _)

/-- The LANs of the active cells. -/
def Uvn.lans (u : Uvn) : List String := u.cells.flatMap fun c => c.allowedLans.map IPv4Network.toText

/-- A registry with the settings of its backbone, in memory and as they were saved. -/
structure BackboneState where
  registry : Registry
  settings : VpnSettings
  saved : VpnSettings

namespace BackboneState

/-- `vpn_config.backbone_vpn`, and the settings it leaves. -/
def backboneVpn (s : BackboneState) (deployment : P2pLinksMap) : P2pVpnConfig × BackboneState :=
  let vpn := Uno.backboneVpn s.settings s.registry.uvn.backboneCells deployment
  (vpn, { s with settings := vpn.settings })

inductive Act where
  | change (op : Registry.Op)
  | evaluate (deployment : P2pLinksMap)
  | save
  /-- Another process loads the registry. -/
  | reopen

def step (s : BackboneState) : Act → Result BackboneState
  | .change op => do .ok { s with registry := ← s.registry.step op }
  | .evaluate deployment => .ok (s.backboneVpn deployment).2
  | .save => .ok { s with saved := s.settings }
  | .reopen => .ok { s with settings := s.saved }

/-- A change takes a LAN away from the active cells only if it is configured, or if no settings list it. -/
def Act.Ok (configured : List String) (s : BackboneState) : Act → Prop
  | .change op => ∀ r, s.registry.step op = .ok r → ∀ lan ∈ s.registry.uvn.lans, lan ∉ r.uvn.lans →
      lan ∈ configured ∨ lan ∉ s.settings.allowedIps ∧ lan ∉ s.saved.allowedIps
  | _ => True

/-- What a list of allowed addresses should hold: the configured ones and LANs of the cells. -/
def Lists (s : BackboneState) (configured ips : List String) : Prop :=
  (∀ ip ∈ configured, ip ∈ ips) ∧ ∀ ip ∈ ips, ip ∈ configured ∨ ip ∈ s.registry.uvn.lans

/-- The settings, in memory and saved, add nothing to the original ones but LANs of the active cells. -/
structure Clean (base : VpnSettings) (s : BackboneState) : Prop where
  settings : s.Lists base.allowedIps s.settings.allowedIps
  saved : s.Lists base.allowedIps s.saved.allowedIps
  subnet : s.settings.subnet = base.subnet
  subnet_saved : s.saved.subnet = base.subnet

/-- An entry for a peer in a backbone configuration built from the state. -/
def IsEntry (s : BackboneState) (deployment : P2pLinksMap) (entry : WireGuardInterfacePeerConfig) : Prop :=
  ∃ source peer k cfgs k', (s.backboneVpn deployment).1.peerConfig source peer k = .ok (cfgs, k') ∧
    ∃ cfg ∈ cfgs, entry ∈ cfg.peers

/-! ### What a configuration allows -/

theorem allowed_of_peerConfig (source : KeySource) {vpn : P2pVpnConfig} {peer : ℕ} {k k' : P2pVpnKeyMaterial}
    {cfgs : List WireGuardConfig} (h : vpn.peerConfig source peer k = .ok (cfgs, k')) {cfg : WireGuardConfig}
    (hcfg : cfg ∈ cfgs) {entry : WireGuardInterfacePeerConfig} (hentry : entry ∈ cfg.peers) :
    entry.allowed = (vpn.settings.subnet.toText :: vpn.settings.allowedIps).insertionSort (· ≤ ·) := by
  unfold P2pVpnConfig.peerConfig at h
  split at h
  · cases h
    cases hcfg
  · have hinv := Fold.foldlM_invariant (P := fun acc : List WireGuardConfig × P2pVpnKeyMaterial =>
      ∀ cfg ∈ acc.1, ∀ entry ∈ cfg.peers, entry.allowed =
        (vpn.settings.subnet.toText :: vpn.settings.allowedIps).insertionSort (· ≤ ·))
      (fun acc acc' x _ hacc hstep => ?_) (fun cfg hcfg => by cases hcfg) h
    · exact hinv cfg hcfg entry hentry
    · unfold P2pVpnConfig.linkStep at hstep
      simp only [Except.bind_eq_ok_iff, Except.ok.injEq] at hstep
      obtain ⟨_, -, _, -, _, -, _, -, _, -, _, -, rfl⟩ := hstep
      intro cfg hcfg entry hentry
      rcases List.mem_append.mp hcfg with hcfg | hcfg
      · exact hacc cfg hcfg entry hentry
      · rw [List.mem_singleton.mp hcfg] at hentry
        rw [List.mem_singleton.mp hentry]

variable {configured : List String} {base : VpnSettings} {s s' : BackboneState}

theorem mem_lans_backboneCells {u : Uvn} {ip : String} :
    ip ∈ u.backboneCells.values.flatMap Cell.allowedLans ↔ ip ∈ u.lans := by
  rw [Dict.values, Uvn.backboneCells, List.map_map, List.flatMap_map]
  rfl

theorem mem_allowedIps_evaluate (deployment : P2pLinksMap) {ip : String} :
    ip ∈ (s.backboneVpn deployment).1.settings.allowedIps ↔
      ip ∈ s.settings.allowedIps ∨ ip ∈ s.registry.uvn.lans := by
  change ip ∈ List.insertionSort _ (List.dedup _) ↔ _
  rw [List.mem_insertionSort, List.mem_dedup, List.mem_append, mem_lans_backboneCells]

theorem IsEntry.mem_allowed_iff {deployment : P2pLinksMap} {entry : WireGuardInterfacePeerConfig}
    (h : s.IsEntry deployment entry) {ip : String} :
    ip ∈ entry.allowed ↔
      ip = s.settings.subnet.toText ∨ ip ∈ s.settings.allowedIps ∨ ip ∈ s.registry.uvn.lans := by
  obtain ⟨source, peer, k, cfgs, k', hok, cfg, hcfg, hentry⟩ := h
  rw [allowed_of_peerConfig source hok hcfg hentry, List.mem_insertionSort, List.mem_cons,
    mem_allowedIps_evaluate]
  rfl

/-! ### Runs -/

/-- A change keeps a list clean exactly when it leaves no LAN behind in it. -/
theorem Lists.change {ips : List String} (h : s.Lists configured ips) (r : Registry) :
    ({ s with registry := r } : BackboneState).Lists configured ips ↔
      ∀ lan ∈ s.registry.uvn.lans, lan ∉ r.uvn.lans → lan ∈ configured ∨ lan ∉ ips := by
  constructor
  · rintro ⟨-, hclean⟩ lan - hgone
    by_cases hlisted : lan ∈ ips
    · exact .inl ((hclean lan hlisted).resolve_right hgone)
    · exact .inr hlisted
  · intro hok
    refine ⟨h.1, fun ip hip => ?_⟩
    rcases h.2 ip hip with hconf | hlan
    · exact .inl hconf
    · by_cases hstays : ip ∈ r.uvn.lans
      · exact .inr hstays
      · exact .inl ((hok ip hlan hstays).resolve_right (not_not.mpr hip))

theorem Clean.step (h : s.Clean base) {a : Act} (hok : a.Ok base.allowedIps s) (hstep : s.step a = .ok s') :
    s'.Clean base := by
  cases a with
  | change op =>
    obtain ⟨r, hr, heq⟩ := Except.bind_eq_ok_iff.mp hstep
    cases heq
    refine ⟨(h.settings.change r).mpr fun lan hlan hgone => ?_, (h.saved.change r).mpr fun lan hlan hgone => ?_,
      h.subnet, h.subnet_saved⟩
    · exact (hok r hr lan hlan hgone).imp_right And.left
    · exact (hok r hr lan hlan hgone).imp_right And.right
  | evaluate deployment =>
    cases hstep
    refine ⟨⟨fun ip hip => ?_, fun ip hip => ?_⟩, h.saved, h.subnet, h.subnet_saved⟩
    · exact (mem_allowedIps_evaluate deployment).mpr (.inl (h.settings.1 ip hip))
    · rcases (mem_allowedIps_evaluate deployment).mp hip with hlisted | hlan
      · exact h.settings.2 ip hlisted
      · exact .inr hlan
  | save =>
    cases hstep
    exact ⟨h.settings, h.settings, h.subnet, h.subnet⟩
  | reopen =>
    cases hstep
    exact ⟨h.saved, h.saved, h.subnet_saved, h.subnet_saved⟩

theorem clean_start (r : Registry) : (⟨r, base, base⟩ : BackboneState).Clean base :=
  ⟨⟨fun _ h => h, fun _ h => .inl h⟩, ⟨fun _ h => h, fun _ h => .inl h⟩, rfl, rfl⟩

theorem Clean.mem_allowed_iff (h : s.Clean base) {deployment : P2pLinksMap} {entry : WireGuardInterfacePeerConfig}
    (hentry : s.IsEntry deployment entry) {ip : String} :
    ip ∈ entry.allowed ↔ ip = base.subnet.toText ∨ ip ∈ base.allowedIps ∨ ip ∈ s.registry.uvn.lans := by
  rw [hentry.mem_allowed_iff, h.subnet]
  constructor
  · rintro (hsubnet | hlisted | hlan)
    · exact .inl hsubnet
    · exact .inr (h.settings.2 ip hlisted)
    · exact .inr (.inr hlan)
  · rintro (hsubnet | hconf | hlan)
    · exact .inl hsubnet
    · exact .inr (.inl (h.settings.1 ip hconf))
    · exact .inr (.inr hlan)

/-- In runs that leave no LAN behind, the allowed addresses are the subnet, the configured addresses and
the LANs of the active cells. Two such runs that end with the same LANs allow the same addresses. -/
theorem allowed_of_histories {r₁ r₂ : Registry} {s₁ s₂ : BackboneState}
    (h₁ : Run.Reaches step (fun s a => a.Ok base.allowedIps s) ⟨r₁, base, base⟩ s₁)
    (h₂ : Run.Reaches step (fun s a => a.Ok base.allowedIps s) ⟨r₂, base, base⟩ s₂) :
    (∀ d entry, s₁.IsEntry d entry → ∀ ip, ip ∈ entry.allowed ↔
      ip = base.subnet.toText ∨ ip ∈ base.allowedIps ∨ ip ∈ s₁.registry.uvn.lans) ∧
    ((∀ lan, lan ∈ s₁.registry.uvn.lans ↔ lan ∈ s₂.registry.uvn.lans) →
      ∀ d₁ d₂ entry₁ entry₂, s₁.IsEntry d₁ entry₁ → s₂.IsEntry d₂ entry₂ →
        ∀ ip, ip ∈ entry₁.allowed ↔ ip ∈ entry₂.allowed) := by
  have hclean₁ : s₁.Clean base := h₁.invariant (clean_start r₁) fun s a s' h hok hstep => h.step hok hstep
  have hclean₂ : s₂.Clean base := h₂.invariant (clean_start r₂) fun s a s' h hok hstep => h.step hok hstep
  refine ⟨fun d entry hentry ip => hclean₁.mem_allowed_iff hentry, fun hlans d₁ d₂ entry₁ entry₂ he₁ he₂ ip => ?_⟩
  rw [hclean₁.mem_allowed_iff he₁, hclean₂.mem_allowed_iff he₂, hlans]

/-! ### Examples -/

/-- Two cells with a link, and the settings of their backbone. -/
def exampleBase : VpnSettings where
  port := 63450
  subnet := network10 20 network10_20
  interface := [some "uwg-b", none]
  allowedIps := ["224.0.0.5/32"]
  peerMtu := 1320
  masquerade := false
  forward := true
  tunnel := false
  keepalive := 25

theorem ok_addCell {owner : Option ℕ} {address : Option String} {lans : List IPv4Network} :
    (Act.change (.addCell owner address lans)).Ok configured s := by
  intro r hr lan hlan hnot
  obtain ⟨_, -, hr⟩ := Except.bind_eq_ok_iff.mp hr
  obtain rfl := Except.ok.inj hr
  obtain ⟨c, hc, hlan⟩ := List.mem_flatMap.mp hlan
  exact absurd (List.mem_flatMap.mpr ⟨c, Uvn.mem_cells_insertCell.mpr (.inl hc), hlan⟩) hnot

def exampleStart : BackboneState := ⟨Registry.fresh, exampleBase, exampleBase⟩

/-- The link between cells 1 and 2. -/
def exampleDeployment : P2pLinksMap :=
  ⟨[(1, ⟨0, ⟨[(2, ⟨0, ⟨0, IPv4Address.zero_lt⟩, ⟨1, by decide⟩, network10 31 (by decide)⟩)], by decide⟩⟩),
    (2, ⟨1, ⟨[(1, ⟨0, ⟨1, by decide⟩, ⟨0, IPv4Address.zero_lt⟩, network10 31 (by decide)⟩)], by decide⟩⟩)], by decide⟩

/-- Two linked cells, one with a LAN: in the first history the backbone is built, and then a third cell with a LAN of
its own comes and goes. -/
theorem allowed_of_histories_example :
    ∃ s₁ s₂ entry₁ entry₂,
      Run.Reaches step (fun s a => a.Ok exampleBase.allowedIps s) exampleStart s₁ ∧
      Run.Reaches step (fun s a => a.Ok exampleBase.allowedIps s) exampleStart s₂ ∧
      s₁.IsEntry exampleDeployment entry₁ ∧ s₂.IsEntry exampleDeployment entry₂ ∧
      Registry.lan10.toText ∈ entry₁.allowed ∧ Registry.lan10'.toText ∉ entry₁.allowed ∧
      (∀ ip, ip ∈ entry₁.allowed ↔
        ip = exampleBase.subnet.toText ∨ ip ∈ exampleBase.allowedIps ∨ ip ∈ s₁.registry.uvn.lans) ∧
      ∀ ip, ip ∈ entry₁.allowed ↔ ip ∈ entry₂.allowed := by
  have hkept : ∀ lan ∈ [Registry.lan10.toText, Registry.lan10'.toText], lan ∉ [Registry.lan10.toText] →
      lan ∈ exampleBase.allowedIps ∨ lan ∉ ["10.0.0.0/24", "224.0.0.5/32"] ∧ lan ∉ exampleBase.allowedIps := by
    decide
  have h₂ : Run.Reaches step (fun s a => a.Ok exampleBase.allowedIps s) exampleStart _ :=
    .step (.change (.addCell none (some "b.example") []))
      (.step (.change (.addCell none (some "a.example") [Registry.lan10])) .refl ok_addCell rfl) ok_addCell rfl
  have h₁ : Run.Reaches step (fun s a => a.Ok exampleBase.allowedIps s) exampleStart _ :=
    .step (.change (.deleteCell 3)) (.step (.change (.addCell none (some "c.example") [Registry.lan10']))
      (.step (.evaluate exampleDeployment) h₂ trivial rfl) ok_addCell rfl)
      (fun _ hr lan hlan hnot => by cases hr; exact hkept lan hlan hnot) rfl
  obtain ⟨hlist, hsame⟩ := allowed_of_histories h₁ h₂
  refine ⟨_, _, _, _, h₁, h₂, ⟨exampleSource, 1, ⟨∅, ∅, 0⟩, _, _, rfl, _, .head _, .head _⟩,
    ⟨exampleSource, 1, ⟨∅, ∅, 0⟩, _, _, rfl, _, .head _, .head _⟩, ?_, ?_, hlist exampleDeployment _ ?_,
    hsame (fun _ => .rfl) exampleDeployment exampleDeployment _ _ ?_ ?_⟩
  · decide
  · decide
  all_goals exact ⟨exampleSource, 1, ⟨∅, ∅, 0⟩, _, _, rfl, _, .head _, .head _⟩

/-- After the backbone was built with a third cell, the LAN of that cell stays when it is deleted. -/
theorem allowed_depend_on_history :
    ∃ s₁ s₂ entry₁ entry₂,
      Run.Reaches step (fun _ _ => True) exampleStart s₁ ∧ Run.Reaches step (fun _ _ => True) exampleStart s₂ ∧
      s₁.registry.uvn.cells = s₂.registry.uvn.cells ∧ s₁.IsEntry exampleDeployment entry₁ ∧
      s₂.IsEntry exampleDeployment entry₂ ∧ Registry.lan10.toText ∈ entry₁.allowed ∧
      Registry.lan10.toText ∉ entry₂.allowed := by
  have h₂ : Run.Reaches step (fun _ _ => True) exampleStart _ :=
    .step (.change (.addCell none (some "b.example") []))
      (.step (.change (.addCell none (some "a.example") [])) .refl trivial rfl) trivial rfl
  have h₁ : Run.Reaches step (fun _ _ => True) exampleStart _ :=
    .step (.change (.deleteCell 3)) (.step (.evaluate ∅)
      (.step (.change (.addCell none (some "c.example") [Registry.lan10])) h₂ trivial rfl) trivial rfl)
      trivial rfl
  refine ⟨_, _, _, _, h₁, h₂, rfl, ⟨exampleSource, 1, ⟨∅, ∅, 0⟩, _, _, rfl, _, .head _, .head _⟩,
    ⟨exampleSource, 1, ⟨∅, ∅, 0⟩, _, _, rfl, _, .head _, .head _⟩, ?_, ?_⟩
  · decide
  · decide

end BackboneState

end Uno
