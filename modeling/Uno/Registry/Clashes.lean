import Uno.Core.Ip
import Uno.Lib.Dict
import Mathlib.Algebra.Order.Ring.Star
import Mathlib.Algebra.Order.Star.Basic
import Mathlib.Data.Finset.Basic

/-!
# Network clashes

What `detect_network_clashes` returns in its two modes. With networks to check, the entry of a checked network
has exactly the pairs of the collection that overlap it (`exact_of_checked`). Without them both members of
every overlapping pair are named (`named_of_unchecked`), but every network is also recorded under itself, so
that the result is empty only when the collection is (`eq_nil_iff_of_unchecked`).
-/

namespace Uno

namespace Uvn

section clashes
variable {ρ : Type} [DecidableEq ρ] {bySubnet : Dict IPv4Network (Finset (ρ × IPv4Network))}
  {records : List ρ} {getNetworks : ρ → List IPv4Network} {checked : List IPv4Network}

/-- `by_subnet[subnet].add(match)`. -/
def addMatch (bySubnet : Dict IPv4Network (Finset (ρ × IPv4Network))) (subnet : IPv4Network)
    (found : ρ × IPv4Network) : Dict IPv4Network (Finset (ρ × IPv4Network)) :=
  bySubnet.set subnet (insert found ((bySubnet.get? subnet).getD ∅))

/-- The body of the inner loop: the network `net` of a record. -/
def checkNetwork (checked : List IPv4Network)
    (acc : Dict IPv4Network (Finset (ρ × IPv4Network)) × List IPv4Network) (found : ρ × IPv4Network) :
    Dict IPv4Network (Finset (ρ × IPv4Network)) × List IPv4Network :=
  let (bySubnet, explored) := acc
  let subnets := if checked ≠ [] then checked else explored
  let bySubnet := addMatch bySubnet found.2 found
  let bySubnet := subnets.foldl (fun bySubnet subnet =>
    if subnet.overlaps found.2 || found.2.overlaps subnet then addMatch bySubnet subnet found
    else bySubnet) bySubnet
  (bySubnet, if found.2 ∈ explored then explored else explored ++ [found.2])

def detectNetworkClashes (records : List ρ) (getNetworks : ρ → List IPv4Network)
    (checked : List IPv4Network) : List (IPv4Network × Finset (ρ × IPv4Network)) :=
  let start := checked.foldl (fun bySubnet n => bySubnet.set n ∅) ∅
  let found := records.flatMap fun r => (getNetworks r).map fun net => (r, net)
  let (bySubnet, _) := found.foldl (checkNetwork checked) (start, [])
  bySubnet.entries.filter fun e => (checked = [] ∨ e.1 ∈ checked) ∧ e.2 ≠ ∅

theorem get?_addMatch (subnet n : IPv4Network) (found : ρ × IPv4Network) :
    (addMatch bySubnet subnet found).get? n =
      if subnet = n then some (insert found ((bySubnet.get? subnet).getD ∅)) else bySubnet.get? n :=
  Dict.get?_set _ _ _ _

/-- What is recorded for `n`: the processed networks that overlap it. -/
def Records (bySubnet : Dict IPv4Network (Finset (ρ × IPv4Network))) (n : IPv4Network)
    (P : ρ × IPv4Network → Prop) : Prop :=
  ∃ matched, bySubnet.get? n = some matched ∧ ∀ f, f ∈ matched ↔ P f ∧ n.overlaps f.2

theorem Records.addMatch {n : IPv4Network} {P : ρ × IPv4Network → Prop} {found : ρ × IPv4Network}
    (h : Records bySubnet n P) (subnet : IPv4Network) (hover : subnet.overlaps found.2) :
    Records (addMatch bySubnet subnet found) n fun f => P f ∨ subnet = n ∧ f = found := by
  obtain ⟨matched, hget, hmem⟩ := h
  by_cases hn : subnet = n
  · subst hn
    refine ⟨insert found matched, by rw [get?_addMatch, if_pos rfl, hget, Option.getD_some], fun f => ?_⟩
    rw [Finset.mem_insert, hmem]
    constructor
    · rintro (rfl | ⟨hf, hfo⟩)
      · exact ⟨.inr ⟨rfl, rfl⟩, hover⟩
      · exact ⟨.inl hf, hfo⟩
    · rintro ⟨hf | ⟨-, rfl⟩, hfo⟩
      · exact .inr ⟨hf, hfo⟩
      · exact .inl rfl
  · refine ⟨matched, by rw [get?_addMatch, if_neg hn, hget], fun f => ?_⟩
    rw [hmem]
    simp only [hn, false_and, or_false]

omit [DecidableEq ρ] in
theorem Records.congr {n : IPv4Network} {P Q : ρ × IPv4Network → Prop} (h : Records bySubnet n P)
    (hPQ : ∀ f, n.overlaps f.2 → (P f ↔ Q f)) : Records bySubnet n Q := by
  obtain ⟨matched, hget, hmem⟩ := h
  refine ⟨matched, hget, fun f => ?_⟩
  rw [hmem]
  exact and_congr_left (hPQ f)

theorem Records.checkSubnets {n : IPv4Network} {P : ρ × IPv4Network → Prop} (found : ρ × IPv4Network)
    (subnets : List IPv4Network) (h : Records bySubnet n P) :
    Records (subnets.foldl (fun bySubnet subnet =>
      if subnet.overlaps found.2 || found.2.overlaps subnet then Uvn.addMatch bySubnet subnet found
      else bySubnet) bySubnet) n fun f => P f ∨ n ∈ subnets ∧ f = found := by
  induction subnets generalizing bySubnet P with
  | nil => exact h.congr fun f _ => by simp
  | cons subnet rest ih =>
    rw [List.foldl_cons]
    by_cases hover : subnet.overlaps found.2
    · rw [if_pos (by rw [hover, Bool.true_or])]
      refine (ih (h.addMatch subnet hover)).congr fun f _ => ?_
      rw [List.mem_cons, or_assoc, ← or_and_right, eq_comm (a := n)]
    · rw [if_neg (by rw [IPv4Network.overlaps_comm found.2, Bool.or_self]; exact hover)]
      refine (ih h).congr fun f hf => ?_
      rw [List.mem_cons]
      constructor
      · exact Or.imp_right fun ⟨hmem, heq⟩ => ⟨.inr hmem, heq⟩
      · rintro (hP | ⟨rfl | hmem, rfl⟩)
        · exact .inl hP
        · exact absurd hf hover
        · exact .inr ⟨hmem, rfl⟩

theorem Records.checkNetworks {n : IPv4Network} (hn : n ∈ checked) (found : List (ρ × IPv4Network))
    (explored : List IPv4Network) {P : ρ × IPv4Network → Prop} (h : Records bySubnet n P) :
    Records (found.foldl (checkNetwork checked) (bySubnet, explored)).1 n fun f => P f ∨ f ∈ found := by
  induction found generalizing bySubnet explored P with
  | nil => exact h.congr fun f _ => by simp
  | cons f₀ rest ih =>
    have hstep := (h.addMatch f₀.2 (IPv4Network.overlaps_self _)).checkSubnets f₀ checked
    rw [List.foldl_cons, checkNetwork, if_pos (List.ne_nil_of_mem hn)]
    refine (ih _ hstep).congr fun f hf => ?_
    rw [List.mem_cons]
    simp only [hn, true_and]
    tauto

omit [DecidableEq ρ] in
theorem records_start {n : IPv4Network} (l : List IPv4Network) (hn : n ∈ l ∨ Records bySubnet n fun _ => False) :
    Records (l.foldl (fun bySubnet n => bySubnet.set n (∅ : Finset (ρ × IPv4Network))) bySubnet) n
      fun _ => False := by
  induction l generalizing bySubnet with
  | nil => exact hn.resolve_left List.not_mem_nil
  | cons m rest ih =>
    rw [List.foldl_cons]
    by_cases hm : m = n
    · refine ih (.inr ⟨∅, by rw [hm, Dict.get?_set_self], fun f => ?_⟩)
      simp
    · apply ih
      rcases hn with hmem | ⟨matched, hget, hempty⟩
      · exact .inl ((List.mem_cons.mp hmem).resolve_left (Ne.symm hm))
      · exact .inr ⟨matched, by rw [Dict.get?_set_ne _ _ hm, hget], hempty⟩

/-- The (record, network) pairs of a collection, in the order in which they are read. -/
def recordNetworks (records : List ρ) (getNetworks : ρ → List IPv4Network) : List (ρ × IPv4Network) :=
  records.flatMap fun r => (getNetworks r).map fun net => (r, net)

omit [DecidableEq ρ] in
theorem mem_recordNetworks {f : ρ × IPv4Network} :
    f ∈ recordNetworks records getNetworks ↔ f.1 ∈ records ∧ f.2 ∈ getNetworks f.1 := by
  simp only [recordNetworks, List.mem_flatMap, List.mem_map]
  constructor
  · rintro ⟨r, hr, net, hnet, rfl⟩
    exact ⟨hr, hnet⟩
  · rintro ⟨hr, hnet⟩
    exact ⟨f.1, hr, f.2, hnet, rfl⟩

/-! ### With networks to check -/

/-- The entries of a result are those of the checked networks that some pair overlaps, with these pairs. -/
def ExactClashes (found : List (ρ × IPv4Network)) (checked : List IPv4Network)
    (result : List (IPv4Network × Finset (ρ × IPv4Network))) : Prop :=
  ∀ n matched, (n, matched) ∈ result ↔
    n ∈ checked ∧ matched ≠ ∅ ∧ ∀ f, f ∈ matched ↔ f ∈ found ∧ n.overlaps f.2

theorem exact_of_checked (hchecked : checked ≠ []) :
    ExactClashes (recordNetworks records getNetworks) checked
      (detectNetworkClashes records getNetworks checked) := by
  intro n matched
  have hrecords : ∀ n ∈ checked, Records ((recordNetworks records getNetworks).foldl (checkNetwork checked)
      (checked.foldl (fun bySubnet n => bySubnet.set n ∅) ∅, [])).1 n
        (· ∈ recordNetworks records getNetworks) := by
    intro n hn
    refine ((records_start checked (.inl hn)).checkNetworks hn _ []).congr fun f _ => ?_
    rw [false_or]
  show (n, matched) ∈ List.filter _ _ ↔ _
  rw [List.mem_filter, decide_eq_true_eq, ← Dict.get?_eq_some_iff]
  constructor
  · rintro ⟨hget, hkept, hne⟩
    have hn := hkept.resolve_left hchecked
    obtain ⟨matched', hget', hmem⟩ := hrecords n hn
    obtain rfl : matched' = matched := Option.some.inj (hget'.symm.trans hget)
    exact ⟨hn, hne, hmem⟩
  · rintro ⟨hn, hne, hmem⟩
    obtain ⟨matched', hget, hmem'⟩ := hrecords n hn
    obtain rfl : matched' = matched := Finset.ext fun f => (hmem' f).trans (hmem f).symm
    exact ⟨hget, .inr hn, hne⟩

theorem detectNetworkClashes_eq_nil_iff (records : List ρ) (getNetworks : ρ → List IPv4Network)
    (hchecked : checked ≠ []) :
    detectNetworkClashes records getNetworks checked = [] ↔
      ∀ r ∈ records, ∀ net ∈ getNetworks r, ∀ n ∈ checked, ¬ n.overlaps net := by
  have hexact : ExactClashes (recordNetworks records getNetworks) checked
      (detectNetworkClashes records getNetworks checked) := exact_of_checked hchecked
  rw [List.eq_nil_iff_forall_not_mem]
  constructor
  · intro hnone r hr net hnet n hn hover
    classical
    have hfound : (r, net) ∈ recordNetworks records getNetworks := mem_recordNetworks.mpr ⟨hr, hnet⟩
    set matched := (recordNetworks records getNetworks).toFinset.filter fun f => n.overlaps f.2
    have hmem : ∀ f, f ∈ matched ↔ f ∈ recordNetworks records getNetworks ∧ n.overlaps f.2 := fun f => by
      rw [Finset.mem_filter, List.mem_toFinset]
    exact hnone (n, matched) ((hexact n matched).mpr
      ⟨hn, Finset.ne_empty_of_mem ((hmem _).mpr ⟨hfound, hover⟩), hmem⟩)
  · rintro hnone ⟨n, matched⟩ hentry
    obtain ⟨hn, hne, hmem⟩ := (hexact n matched).mp hentry
    obtain ⟨f, hf⟩ := Finset.nonempty_iff_ne_empty.mpr hne
    obtain ⟨hfound, hover⟩ := (hmem f).mp hf
    obtain ⟨hr, hnet⟩ := mem_recordNetworks.mp hfound
    exact hnone f.1 hr f.2 hnet n hn hover

/-! ### Without networks to check -/

/-- The pair is recorded for the network. -/
def HasMatch (bySubnet : Dict IPv4Network (Finset (ρ × IPv4Network))) (n : IPv4Network)
    (f : ρ × IPv4Network) : Prop :=
  ∃ matched, bySubnet.get? n = some matched ∧ f ∈ matched

theorem HasMatch.addMatch {n : IPv4Network} {f : ρ × IPv4Network} (h : HasMatch bySubnet n f)
    (subnet : IPv4Network) (found : ρ × IPv4Network) : HasMatch (addMatch bySubnet subnet found) n f := by
  obtain ⟨matched, hget, hf⟩ := h
  by_cases hn : subnet = n
  · subst hn
    refine ⟨insert found matched, ?_, Finset.mem_insert_of_mem hf⟩
    rw [get?_addMatch, if_pos rfl, hget, Option.getD_some]
  · exact ⟨matched, by rw [get?_addMatch, if_neg hn, hget], hf⟩

theorem hasMatch_addMatch (bySubnet : Dict IPv4Network (Finset (ρ × IPv4Network))) (subnet : IPv4Network)
    (found : ρ × IPv4Network) : HasMatch (addMatch bySubnet subnet found) subnet found :=
  ⟨_, by rw [get?_addMatch, if_pos rfl], Finset.mem_insert_self _ _⟩

theorem HasMatch.checkSubnets {n : IPv4Network} {f : ρ × IPv4Network} (h : HasMatch bySubnet n f)
    (found : ρ × IPv4Network) (subnets : List IPv4Network) :
    HasMatch (subnets.foldl (fun bySubnet subnet =>
      if subnet.overlaps found.2 || found.2.overlaps subnet then Uvn.addMatch bySubnet subnet found
      else bySubnet) bySubnet) n f := by
  induction subnets generalizing bySubnet with
  | nil => exact h
  | cons subnet rest ih =>
    rw [List.foldl_cons]
    split
    · exact ih (h.addMatch subnet found)
    · exact ih h

theorem hasMatch_checkSubnets {subnet : IPv4Network} {found : ρ × IPv4Network} {subnets : List IPv4Network}
    (hmem : subnet ∈ subnets) (hover : subnet.overlaps found.2) :
    HasMatch (subnets.foldl (fun bySubnet subnet =>
      if subnet.overlaps found.2 || found.2.overlaps subnet then Uvn.addMatch bySubnet subnet found
      else bySubnet) bySubnet) subnet found := by
  induction subnets generalizing bySubnet with
  | nil => cases hmem
  | cons first rest ih =>
    rw [List.foldl_cons]
    rcases List.mem_cons.mp hmem with rfl | hrest
    · rw [if_pos (by rw [hover, Bool.true_or])]
      exact (hasMatch_addMatch bySubnet subnet found).checkSubnets found rest
    · exact ih hrest

/-- The state of the loop after some pairs, when no networks are given. -/
def explore (found : List (ρ × IPv4Network)) :
    Dict IPv4Network (Finset (ρ × IPv4Network)) × List IPv4Network :=
  found.foldl (checkNetwork []) (∅, [])

theorem explore_concat (found : List (ρ × IPv4Network)) (f : ρ × IPv4Network) :
    explore (found ++ [f]) = checkNetwork [] (explore found) f := by
  rw [explore, List.foldl_append]
  rfl

theorem mem_explored {found : List (ρ × IPv4Network)} {n : IPv4Network} :
    n ∈ (explore found).2 ↔ ∃ f ∈ found, f.2 = n := by
  induction found using List.reverseRecOn with
  | nil => simp [explore]
  | append_singleton found g ih =>
    have hexplored : n ∈ (explore (found ++ [g])).2 ↔ n ∈ (explore found).2 ∨ n = g.2 := by
      rw [explore_concat]
      show n ∈ (if g.2 ∈ (explore found).2 then (explore found).2 else (explore found).2 ++ [g.2]) ↔ _
      split_ifs with hmem
      · exact ⟨.inl, fun h => h.elim id fun heq => heq ▸ hmem⟩
      · rw [List.mem_append, List.mem_singleton]
    rw [hexplored, ih, eq_comm (a := n)]
    simp only [List.mem_append, List.mem_singleton, or_and_right, exists_or, exists_eq_left]

/-- One more pair: everything recorded stays, and the pair is recorded for its own network and for all explored
ones that it overlaps. -/
theorem HasMatch.explore {found : List (ρ × IPv4Network)} {n : IPv4Network} {f : ρ × IPv4Network}
    (h : HasMatch (explore found).1 n f) (g : ρ × IPv4Network) : HasMatch (explore (found ++ [g])).1 n f := by
  rw [explore_concat]
  exact (h.addMatch g.2 g).checkSubnets g _

theorem hasMatch_explore_self (found : List (ρ × IPv4Network)) (g : ρ × IPv4Network) :
    HasMatch (explore (found ++ [g])).1 g.2 g := by
  rw [explore_concat]
  exact (hasMatch_addMatch (explore found).1 g.2 g).checkSubnets g _

theorem hasMatch_explore {found : List (ρ × IPv4Network)} {f g : ρ × IPv4Network} (hf : f ∈ found)
    (hover : f.2.overlaps g.2) : HasMatch (explore (found ++ [g])).1 f.2 g := by
  rw [explore_concat]
  exact hasMatch_checkSubnets (mem_explored.mpr ⟨f, hf, rfl⟩) hover

theorem hasMatch_self {found : List (ρ × IPv4Network)} {f : ρ × IPv4Network} (hf : f ∈ found) :
    HasMatch (explore found).1 f.2 f := by
  induction found using List.reverseRecOn with
  | nil => cases hf
  | append_singleton found g ih =>
    rcases List.mem_append.mp hf with hold | hnew
    · exact (ih hold).explore g
    · rw [List.mem_singleton.mp hnew]
      exact hasMatch_explore_self found g

theorem pairwise_hasMatch (found : List (ρ × IPv4Network)) :
    found.Pairwise fun f g => f.2.overlaps g.2 →
      HasMatch (explore found).1 f.2 f ∧ HasMatch (explore found).1 f.2 g := by
  induction found using List.reverseRecOn with
  | nil => exact .nil
  | append_singleton found g ih =>
    refine List.pairwise_append.mpr ⟨ih.imp fun h hover => ?_, List.pairwise_singleton _ _, fun f hf e he => ?_⟩
    · exact ⟨(h hover).1.explore g, (h hover).2.explore g⟩
    · obtain rfl := List.mem_singleton.mp he
      exact fun hover => ⟨(hasMatch_self hf).explore e, hasMatch_explore hf hover⟩

theorem HasMatch.mem_result {n : IPv4Network} {f : ρ × IPv4Network}
    (h : HasMatch (Uvn.explore (recordNetworks records getNetworks)).1 n f) :
    ∃ matched, (n, matched) ∈ detectNetworkClashes records getNetworks [] ∧ f ∈ matched ∧
      ∀ g, HasMatch (Uvn.explore (recordNetworks records getNetworks)).1 n g → g ∈ matched := by
  obtain ⟨matched, hget, hf⟩ := h
  refine ⟨matched, List.mem_filter.mpr ⟨Dict.get?_eq_some_iff.mp hget, ?_⟩, hf, ?_⟩
  · exact decide_eq_true ⟨.inl rfl, Finset.ne_empty_of_mem hf⟩
  · rintro g ⟨matched', hget', hg⟩
    rwa [Option.some.inj (hget.symm.trans hget')]

theorem eq_nil_iff_of_unchecked :
    detectNetworkClashes records getNetworks [] = [] ↔ recordNetworks records getNetworks = [] := by
  constructor
  · intro hnone
    by_contra hne
    obtain ⟨f, hf⟩ := List.exists_mem_of_ne_nil _ hne
    obtain ⟨matched, hmem, -⟩ := (hasMatch_self hf).mem_result
    rw [hnone] at hmem
    cases hmem
  · intro hnone
    show List.filter _ ((recordNetworks records getNetworks).foldl (checkNetwork []) (∅, [])).1.entries = []
    rw [hnone]
    rfl

/-- Some entry of a result has both pairs. -/
def NamesBoth (result : List (IPv4Network × Finset (ρ × IPv4Network))) (f g : ρ × IPv4Network) : Prop :=
  ∃ e ∈ result, f ∈ e.2 ∧ g ∈ e.2

theorem named_of_unchecked :
    (recordNetworks records getNetworks).Pairwise fun f g => f.2.overlaps g.2 →
      NamesBoth (detectNetworkClashes records getNetworks []) f g := by
  refine (pairwise_hasMatch (recordNetworks records getNetworks)).imp fun h hover => ?_
  obtain ⟨matched, hmem, hf, hall⟩ := (h hover).1.mem_result
  exact ⟨_, hmem, hf, hall _ (h hover).2⟩

/-! ### Both modes -/

/-- No two pairs of the collection overlap. -/
def NoOverlap (found : List (ρ × IPv4Network)) : Prop := found.Pairwise fun f g => ¬ f.2.overlaps g.2

/-- The result is empty exactly when no two pairs overlap, and it names both members of those that do. -/
def ReportsClashes (found : List (ρ × IPv4Network))
    (result : List (IPv4Network × Finset (ρ × IPv4Network))) : Prop :=
  (result = [] ↔ NoOverlap found) ∧ found.Pairwise fun f g => f.2.overlaps g.2 → NamesBoth result f g

/-- The result for checked networks is always exact; the one without is empty, or not, as the overlaps are
unless some networks are given and none of them overlap. -/
theorem detect_network_clashes_iff (records : List ρ) (getNetworks : ρ → List IPv4Network)
    (checked : List IPv4Network) :
    ((checked ≠ [] → ExactClashes (recordNetworks records getNetworks) checked
        (detectNetworkClashes records getNetworks checked)) ∧
      (checked = [] → ReportsClashes (recordNetworks records getNetworks)
        (detectNetworkClashes records getNetworks checked))) ↔
      checked ≠ [] ∨ recordNetworks records getNetworks = [] ∨
        ¬ NoOverlap (recordNetworks records getNetworks) := by
  by_cases hchecked : checked = []
  · subst hchecked
    have hreports : ReportsClashes (recordNetworks records getNetworks)
        (detectNetworkClashes records getNetworks []) ↔
          (recordNetworks records getNetworks = [] ↔ NoOverlap (recordNetworks records getNetworks)) := by
      rw [ReportsClashes, eq_nil_iff_of_unchecked]
      exact and_iff_left named_of_unchecked
    have hnil : recordNetworks records getNetworks = [] → NoOverlap (recordNetworks records getNetworks) :=
      fun h => h ▸ List.Pairwise.nil
    simp only [ne_eq, not_true_eq_false, false_imp_iff, true_and, forall_const, false_or, hreports]
    tauto
  · exact iff_of_true ⟨fun _ => exact_of_checked hchecked, fun h => absurd h hchecked⟩ (.inl hchecked)

/-- One record with one network: nothing overlaps, and the result names the network. -/
theorem not_reportsClashes_single :
    ¬ ReportsClashes (recordNetworks [1] fun _ => [IPv4Network.ofInterface ⟨0x0A000000, by norm_num⟩ 8 (by omega)])
      (detectNetworkClashes [1] (fun _ => [IPv4Network.ofInterface ⟨0x0A000000, by norm_num⟩ 8 (by omega)]) []) := by
  rintro ⟨hempty, -⟩
  have hapart : NoOverlap (recordNetworks [1] fun _ =>
      [IPv4Network.ofInterface ⟨0x0A000000, by norm_num⟩ 8 (by omega)]) := List.pairwise_singleton _ _
  have hnil := eq_nil_iff_of_unchecked.mp (hempty.mpr hapart)
  cases hnil

end clashes

end Uvn

end Uno
