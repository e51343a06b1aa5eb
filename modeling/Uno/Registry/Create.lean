import Uno.Core.Data

/-!
# The configuration of a new registry

`Registry.create` layers the address and settings of the specification, the user's configuration of the UVN, the
registry section of the specification and the user's configuration, by three merges. At every path the first of
the four layers that has something there decides (`find_createConfig`).
-/

namespace Uno

open Dict (lookupEntry)
open Nested (Items Found)

variable {α : Type}

namespace NestedDict

def empty : NestedDict α := ⟨[], .dict List.nodup_nil (by simp)⟩

/-- `{key: d}`. -/
def single (key : String) (d : NestedDict α) : NestedDict α :=
  ⟨[(key, d.tree)], .dict (List.nodup_singleton _) (by simpa [tree] using d.wf)⟩

/-- The entries of some keys. -/
def pick (d : NestedDict α) (keys : List String) : NestedDict α :=
  ⟨d.items.filter fun e => e.1 ∈ keys, by
    obtain ⟨items, hwf⟩ := d
    cases hwf with
    | dict hnodup hall =>
      exact .dict (hnodup.sublist (List.filter_sublist.map _)) fun e he => hall e (List.mem_filter.mp he).1⟩

theorem wf_of_lookup (d : NestedDict α) {key : String} {t : Nested String α}
    (h : lookupEntry key d.items = some t) : t.Wf := by
  obtain ⟨items, hwf⟩ := d
  cases hwf with
  | dict hnodup hall => exact hall _ ((Dict.lookupEntry_eq_some hnodup).mp h)

/-- `d.get(key, {})`, where a dictionary is needed: other values have no `items()`. -/
def getDict (d : NestedDict α) (key : String) : Result (NestedDict α) :=
  match h : lookupEntry key d.items with
  | none => .ok empty
  | some (.dict items) => .ok ⟨items, d.wf_of_lookup h⟩
  | some (.leaf _) => .error (.attribute "items")

theorem find_single_nil (key : String) (d : NestedDict α) : (single key d).find [] = .dict :=
  Nested.find_dict_nil _

theorem find_single_cons (key k : String) (d : NestedDict α) (path : List String) :
    (single key d).find (k :: path) = if key = k then d.find path else .missing := by
  show (Nested.dict [(key, d.tree)]).find (k :: path) = _
  rw [Nested.find_dict_cons, lookupEntry]
  split_ifs <;> rfl

end NestedDict

/-- The configuration that `Registry.create` passes to `configure`. -/
def createConfig (uvnSpec userRegistryConfig : NestedDict α) : Result (NestedDict α) := do
  let userUvn ← userRegistryConfig.getDict "uvn"
  let uvnConfig ← applyDefaults (uvnSpec.pick ["address", "settings"]) userUvn
  let specRegistry ← uvnSpec.getDict "registry"
  let registryConfig ← applyDefaults (.single "uvn" uvnConfig) specRegistry
  applyDefaults registryConfig userRegistryConfig

/-- The layers of a configuration, the one that decides first. -/
def createLayers (uvnSpec userUvn specRegistry userRegistryConfig : NestedDict α) : List (NestedDict α) :=
  [.single "uvn" (uvnSpec.pick ["address", "settings"]), .single "uvn" userUvn, specRegistry, userRegistryConfig]

/-- What the first layer that has something at a path has there. -/
def findLayer (layers : List (NestedDict α)) (path : List String) : Found α :=
  layers.foldr (fun layer below => (layer.find path).orElse below) .missing

/-- The first layer that has something at a path decides, at every path. -/
theorem find_createConfig {uvnSpec userRegistryConfig config : NestedDict α}
    (h : createConfig uvnSpec userRegistryConfig = .ok config) :
    ∃ userUvn specRegistry, userRegistryConfig.getDict "uvn" = .ok userUvn ∧
      uvnSpec.getDict "registry" = .ok specRegistry ∧
      ∀ path, config.find path = findLayer (createLayers uvnSpec userUvn specRegistry userRegistryConfig) path := by
  obtain ⟨userUvn, huser, h⟩ := Except.bind_eq_ok_iff.mp h
  obtain ⟨uvnConfig, huvn, h⟩ := Except.bind_eq_ok_iff.mp h
  obtain ⟨specRegistry, hspec, h⟩ := Except.bind_eq_ok_iff.mp h
  obtain ⟨registryConfig, hregistry, h⟩ := Except.bind_eq_ok_iff.mp h
  have hsingle : ∀ path, (NestedDict.single "uvn" uvnConfig).find path =
      ((NestedDict.single "uvn" (uvnSpec.pick ["address", "settings"])).find path).orElse
        ((NestedDict.single "uvn" userUvn).find path) := by
    intro path
    cases path with
    | nil => simp only [NestedDict.find_single_nil]; rfl
    | cons k path =>
      simp only [NestedDict.find_single_cons]
      split_ifs
      · exact find_applyDefaults huvn path
      · rfl
  refine ⟨userUvn, specRegistry, huser, hspec, fun path => ?_⟩
  rw [find_applyDefaults h, find_applyDefaults hregistry, hsingle]
  simp only [findLayer, createLayers, List.foldr_cons, List.foldr_nil, Found.orElse_missing, Found.orElse_assoc]

/-- Merging of defaults: the values at every path, merging again, when it raises, the order of merging, and the
layers of a new registry's configuration. -/
theorem apply_defaults_merges :
    (∀ a d m : NestedDict α, applyDefaults a d = .ok m →
      ∀ path, m.find path = (a.find path).orElse (d.find path)) ∧
    (∀ a d m : NestedDict α, applyDefaults a d = .ok m →
      ∃ m', applyDefaults m d = .ok m' ∧ m'.tree.Same m.tree) ∧
    (∀ a d : NestedDict α, (∃ e, applyDefaults a d = .error e) ↔
      ∃ path v, a.find path = .dict ∧ d.find path = .leaf v) ∧
    (∀ a b c x y : NestedDict α, applyDefaults a b >>= (applyDefaults · c) = .ok x →
      applyDefaults b c >>= (applyDefaults a ·) = .ok y → x.tree.Same y.tree) ∧
    ∀ uvnSpec userRegistryConfig config : NestedDict α, createConfig uvnSpec userRegistryConfig = .ok config →
      ∃ userUvn specRegistry, userRegistryConfig.getDict "uvn" = .ok userUvn ∧
        uvnSpec.getDict "registry" = .ok specRegistry ∧
        ∀ path, config.find path = findLayer (createLayers uvnSpec userUvn specRegistry userRegistryConfig) path :=
  ⟨fun _ _ _ h => find_applyDefaults h, fun _ _ _ h => applyDefaults_again h, fun _ _ => applyDefaults_error_iff,
    fun _ _ _ _ _ hx hy => applyDefaults_assoc hx hy, fun _ _ _ h => find_createConfig h⟩

/-- `{settings: {a: 1}, registry: {uvn: {settings: {b: 2}}}}`. -/
def sampleSpec : NestedDict ℕ :=
  ⟨[("settings", .dict [("a", .leaf 1)]), ("registry", .dict [("uvn", .dict [("settings", .dict [("b", .leaf 2)])])])],
    .dict (by simp) (by
      simp only [List.forall_mem_cons, List.not_mem_nil, false_imp_iff, implies_true, and_true]
      refine ⟨.dict (by simp) (by simpa using .leaf 1), .dict (by simp) ?_⟩
      simpa using Nested.Wf.dict (by simp) (by simpa using Nested.Wf.dict (by simp) (by simpa using .leaf 2)))⟩

/-- `{uvn: {settings: {a: 3, c: 4}}}`. -/
def sampleUser : NestedDict ℕ :=
  ⟨[("uvn", .dict [("settings", .dict [("a", .leaf 3), ("c", .leaf 4)])])],
    .dict (by simp) (by
      have hleaf : ∀ n : ℕ, @Nested.Wf String ℕ (.leaf n) := Nested.Wf.leaf
      simpa using Nested.Wf.dict (by simp) (by simpa using Nested.Wf.dict (by simp) (by simp [hleaf])))⟩

theorem apply_defaults_merges_at_sample :
    (∃ m, applyDefaults sampleSpec sampleUser = .ok m ∧ m.find ["uvn", "settings", "a"] = .leaf 3 ∧
      ∃ m', applyDefaults m sampleUser = .ok m' ∧ m'.tree.Same m.tree) ∧
    (∃ x y, applyDefaults sampleSpec sampleUser >>= (applyDefaults · sampleSpec) = .ok x ∧
      applyDefaults sampleUser sampleSpec >>= (applyDefaults sampleSpec ·) = .ok y ∧ x.tree.Same y.tree) ∧
    ∃ config, createConfig sampleSpec sampleUser = .ok config ∧
      config.find ["uvn", "settings", "a"] = .leaf 1 ∧ config.find ["uvn", "settings", "c"] = .leaf 4 := by
  obtain ⟨hfind, hagain, -, hassoc, hcreate⟩ := @apply_defaults_merges ℕ
  refine ⟨?_, ?_, ?_⟩
  · obtain ⟨m, hm⟩ : ∃ m, applyDefaults sampleSpec sampleUser = .ok m := ⟨_, rfl⟩
    exact ⟨m, hm, hfind _ _ _ hm _, hagain _ _ _ hm⟩
  · obtain ⟨x, hx⟩ : ∃ x, applyDefaults sampleSpec sampleUser >>= (applyDefaults · sampleSpec) = .ok x := ⟨_, rfl⟩
    obtain ⟨y, hy⟩ : ∃ y, applyDefaults sampleUser sampleSpec >>= (applyDefaults sampleSpec ·) = .ok y := ⟨_, rfl⟩
    exact ⟨x, y, hx, hy, hassoc _ _ _ _ _ hx hy⟩
  · obtain ⟨config, hconfig⟩ : ∃ config, createConfig sampleSpec sampleUser = .ok config := ⟨_, rfl⟩
    obtain ⟨userUvn, specRegistry, huser, hspec, hconfigFind⟩ := hcreate _ _ _ hconfig
    cases huser
    cases hspec
    exact ⟨config, hconfig, hconfigFind _, hconfigFind _⟩

end Uno
