import Uno.Lib.Dict
import Uno.Core.Exn
import Mathlib.Data.Finset.Card

/-!
# Values for unordered pairs of peers

`PairedValuesMap`: one value for each unordered pair of peer ids, stored under the pair in
ascending order (`pairKey`), and generated the first time it is asked for (`assertPair`). When the
value is itself a pair, its first half belongs to the smaller id (`pick`), so both ends of a pair
see the same two halves from their own side.
-/

namespace Uno

abbrev PairedValuesMap (α : Type*) := Dict (ℕ × ℕ) α

namespace PairedValuesMap

variable {α : Type}

/-- The key of a pair: the ids in ascending order. -/
def pairKey (peerA peerB : ℕ) : ℕ × ℕ := if peerA > peerB then (peerB, peerA) else (peerA, peerB)

theorem pairKey_comm (a b : ℕ) : pairKey a b = pairKey b a := by
  simp only [pairKey]
  split_ifs
  · omega
  · rfl
  · rfl
  · rw [Prod.mk.injEq]; omega

theorem pairKey_eq_iff {a b c d : ℕ} :
    pairKey a b = pairKey c d ↔ (a = c ∧ b = d) ∨ (a = d ∧ b = c) := by
  simp only [pairKey]
  split_ifs <;> simp only [Prod.mk.injEq] <;> omega

/-- The stored value of a pair; when there is none, a new one, and whether it was generated. -/
def assertPair {m : Type → Type} [Monad m] (generateVal : ℕ → ℕ → m α) (d : PairedValuesMap α)
    (peerA peerB : ℕ) : m ((α × Bool) × PairedValuesMap α) :=
  match d.get? (pairKey peerA peerB) with
  | some stored => pure ((stored, false), d)
  | none => do
    let stored ← generateVal peerA peerB
    pure ((stored, true), d.set (pairKey peerA peerB) stored)

theorem assertPair_of_get? {m : Type → Type} [Monad m] {generateVal : ℕ → ℕ → m α}
    {d : PairedValuesMap α} {a b : ℕ} {v : α} (h : d.get? (pairKey a b) = some v) :
    assertPair generateVal d a b = pure ((v, false), d) := by
  rw [assertPair, h]

theorem assertPair_of_get?_none {m : Type → Type} [Monad m] {generateVal : ℕ → ℕ → m α}
    {d : PairedValuesMap α} {a b : ℕ} (h : d.get? (pairKey a b) = none) :
    assertPair generateVal d a b =
      generateVal a b >>= fun stored => pure ((stored, true), d.set (pairKey a b) stored) := by
  rw [assertPair, h]

/-- The half of a pair's value that belongs to `peerTarget`. -/
def pick (peerA peerB peerTarget : ℕ) (val : α × α) : α :=
  if (pairKey peerA peerB).1 = peerTarget then val.1 else val.2

theorem pick_comm (a b target : ℕ) (val : α × α) : pick a b target val = pick b a target val := by
  rw [pick, pick, pairKey_comm]

theorem pick_self_of_lt {a b : ℕ} (h : a < b) (val : α × α) :
    pick a b a val = val.1 ∧ pick a b b val = val.2 := by
  have hkey : pairKey a b = (a, b) := by rw [pairKey, if_neg (by omega)]
  rw [pick, pick, hkey, if_pos rfl, if_neg (by omega)]
  exact ⟨rfl, rfl⟩

theorem pick_halves {a b : ℕ} (h : a ≠ b) (val : α × α) :
    (pick a b a val = val.1 ∧ pick a b b val = val.2) ∨
      (pick a b a val = val.2 ∧ pick a b b val = val.1) := by
  rcases Nat.lt_or_gt_of_ne h with hlt | hgt
  · exact .inl (pick_self_of_lt hlt val)
  · right
    rw [pick_comm a b a, pick_comm a b b]
    exact ⟨(pick_self_of_lt hgt val).2, (pick_self_of_lt hgt val).1⟩

/-- The pairs of a peer, with their values. -/
def purged (d : PairedValuesMap α) (peer : ℕ) : PairedValuesMap α :=
  d.filterKeys fun k => peer = k.1 ∨ peer = k.2

/-- The map without the pairs of a peer. -/
def purgePeer (d : PairedValuesMap α) (peer : ℕ) : PairedValuesMap α :=
  d.filterKeys fun k => ¬ (peer = k.1 ∨ peer = k.2)

end PairedValuesMap

end Uno
