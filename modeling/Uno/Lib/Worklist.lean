import Mathlib.Algebra.Order.BigOperators.Group.List
import Mathlib.Algebra.Order.Group.Nat
import Mathlib.Algebra.GroupWithZero.Nat
import Mathlib.Logic.Relation

/-!
# Traversal with a work list

`visit` walks over the nodes below a root with a queue. The first time it takes a node from the queue it puts
the children of the node at the end of the queue, followed by the node itself, and it yields the node when it
takes it again. Nodes are told apart by a key only. When nodes with the same key have the same children, up to
their keys, and there is fuel for the weight of the root, the nodes it yields are, up to their keys, those below
the root (`mem_visit_iff`).
-/

namespace Worklist

variable {α κ : Type} [DecidableEq κ] (children : α → List α) (key : α → κ)

def visit : ℕ → List α → List κ → List α
  | 0, _, _ => []
  | _ + 1, [], _ => []
  | n + 1, x :: rest, seen =>
    if key x ∈ seen then x :: visit n rest seen
    else visit n (rest ++ (children x ++ [x])) (key x :: seen)

/-- The nodes below a node, itself included. -/
def Below (x y : α) : Prop := Relation.ReflTransGen (fun a b => b ∈ children a) x y

variable {children key}

theorem Below.refl (x : α) : Below children x x := Relation.ReflTransGen.refl

theorem Below.child {x y z : α} (hy : y ∈ children x) (hz : Below children y z) : Below children x z :=
  .head hy hz

/-! ### What is yielded is below the queue -/

theorem below_of_mem_visit {n : ℕ} {queue : List α} {seen : List κ} {y : α} (hy : y ∈ visit children key n queue seen) :
    ∃ x ∈ queue, Below children x y := by
  induction n generalizing queue seen with
  | zero => simp [visit] at hy
  | succ n ih =>
    cases queue with
    | nil => simp [visit] at hy
    | cons x rest =>
      rw [visit] at hy
      split_ifs at hy with hseen
      · rcases List.mem_cons.mp hy with rfl | hy
        · exact ⟨y, List.mem_cons_self, .refl y⟩
        · obtain ⟨z, hz, hbelow⟩ := ih hy
          exact ⟨z, List.mem_cons_of_mem _ hz, hbelow⟩
      · obtain ⟨z, hz, hbelow⟩ := ih hy
        simp only [List.mem_append, List.mem_singleton] at hz
        rcases hz with hz | hz | rfl
        · exact ⟨z, List.mem_cons_of_mem _ hz, hbelow⟩
        · exact ⟨x, List.mem_cons_self, hbelow.child hz⟩
        · exact ⟨z, List.mem_cons_self, hbelow⟩

/-! ### All nodes are yielded -/

section complete
variable {weight : α → ℕ}

/-- What is left to do: nodes that were seen only have to be yielded. -/
def cost (key : α → κ) (weight : α → ℕ) (queue : List α) (seen : List κ) : ℕ :=
  (queue.map fun x => if key x ∈ seen then 1 else weight x).sum

theorem cost_cons_le (key : α → κ) (hpos : ∀ x, 0 < weight x) (queue : List α) (seen : List κ) (k : κ) :
    cost key weight queue (k :: seen) ≤ cost key weight queue seen := by
  apply List.sum_le_sum
  intro x _
  have hx := hpos x
  by_cases hseen : key x ∈ seen
  · simp [hseen]
  · by_cases hk : key x = k
    · simp only [hk, List.mem_cons_self, if_true]
      split_ifs <;> omega
    · simp [hseen, hk]

theorem cost_append (queue queue' : List α) (seen : List κ) :
    cost key weight (queue ++ queue') seen = cost key weight queue seen + cost key weight queue' seen := by
  simp [cost]

theorem cost_children_lt (key : α → κ) (hweight : ∀ x, ((children x).map weight).sum + 2 ≤ weight x) (x : α)
    (seen : List κ) :
    cost key weight (children x ++ [x]) (key x :: seen) < weight x := by
  have hpos : ∀ y, 0 < weight y := fun y => by have := hweight y; omega
  have hchildren : cost key weight (children x) (key x :: seen) ≤ ((children x).map weight).sum := by
    apply List.sum_le_sum
    intro y _
    have hy := hpos y
    split_ifs <;> omega
  have hself : cost key weight [x] (key x :: seen) = 1 := by simp [cost]
  have hx := hweight x
  rw [cost_append, hself]
  omega

/-- With enough fuel all of the queue is yielded, and so are the children of what is yielded. -/
theorem visit_closed (hweight : ∀ x, ((children x).map weight).sum + 2 ≤ weight x) {U : α → Prop}
    (hU : ∀ x, U x → ∀ y ∈ children x, U y)
    (hkey : ∀ x y, U x → U y → key x = key y → ∀ z ∈ children x, ∃ w ∈ children y, key w = key z)
    {n : ℕ} (queue : List α) (seen : List κ) (hfuel : cost key weight queue seen < n) (hqueue : ∀ x ∈ queue, U x)
    (hseen : ∀ x, U x → key x ∈ seen → ∀ y ∈ children x, key y ∈ seen ∨ key y ∈ queue.map key) :
    (∀ x ∈ queue, key x ∈ (visit children key n queue seen).map key) ∧
      ∀ x, U x → (key x ∈ (visit children key n queue seen).map key ∨ key x ∈ seen) →
        ∀ y ∈ children x, key y ∈ (visit children key n queue seen).map key ∨ key y ∈ seen := by
  have hpos : ∀ y, 0 < weight y := fun y => by have := hweight y; omega
  induction n generalizing queue seen with
  | zero => omega
  | succ n ih =>
    cases queue with
    | nil =>
      refine ⟨by simp, fun x hx hmem y hy => .inr ?_⟩
      simp only [visit, List.map_nil, List.not_mem_nil, false_or] at hmem
      simpa using hseen x hx hmem y hy
    | cons x rest =>
      have hcost : cost key weight (x :: rest) seen =
          (if key x ∈ seen then 1 else weight x) + cost key weight rest seen := by simp [cost]
      rw [visit]
      by_cases hx : key x ∈ seen
      · rw [if_pos hx] at hcost ⊢
        obtain ⟨hall, hclosed⟩ := ih rest seen (by omega)
          (fun y hy => hqueue y (List.mem_cons_of_mem _ hy)) fun y hy hmem z hz => by
            rcases hseen y hy hmem z hz with hz | hz
            · exact .inl hz
            · rw [List.map_cons, List.mem_cons] at hz
              rcases hz with hz | hz
              · exact .inl (hz ▸ hx)
              · exact .inr hz
        rw [List.map_cons]
        refine ⟨fun y hy => ?_, fun y hy hmem z hz => ?_⟩
        · rcases List.mem_cons.mp hy with rfl | hy
          · exact List.mem_cons_self
          · exact List.mem_cons_of_mem _ (hall y hy)
        · have hmem : key y ∈ (visit children key n rest seen).map key ∨ key y ∈ seen := by
            rcases hmem with hmem | hmem
            · rcases List.mem_cons.mp hmem with heq | hmem
              · exact .inr (heq ▸ hx)
              · exact .inl hmem
            · exact .inr hmem
          exact (hclosed y hy hmem z hz).imp_left (List.mem_cons_of_mem _)
      · rw [if_neg hx] at hcost ⊢
        have hrest := cost_cons_le key hpos rest seen (key x)
        have hnode := cost_children_lt key hweight x seen
        have hxU := hqueue x List.mem_cons_self
        obtain ⟨hall, hclosed⟩ := ih (rest ++ (children x ++ [x])) (key x :: seen)
          (by rw [cost_append]; omega)
          (fun y hy => by
            simp only [List.mem_append, List.mem_singleton] at hy
            rcases hy with hy | hy | rfl
            · exact hqueue y (List.mem_cons_of_mem _ hy)
            · exact hU x hxU y hy
            · exact hxU)
          (fun y hy hmem z hz => by
            rcases List.mem_cons.mp hmem with heq | hmem
            · obtain ⟨w, hw, hwz⟩ := hkey y x hy hxU heq z hz
              refine .inr (List.mem_map.mpr ⟨w, by simp [hw], hwz⟩)
            · rcases hseen y hy hmem z hz with hz | hz
              · exact .inl (List.mem_cons_of_mem _ hz)
              · rw [List.map_cons, List.mem_cons] at hz
                rcases hz with hz | hz
                · exact .inl (hz ▸ List.mem_cons_self)
                · exact .inr (by rw [List.map_append]; exact List.mem_append_left _ hz))
        have hself := hall x (by simp)
        refine ⟨fun y hy => ?_, fun y hy hmem z hz => ?_⟩
        · rcases List.mem_cons.mp hy with rfl | hy
          · exact hself
          · exact hall y (List.mem_append_left _ hy)
        · rcases hclosed y hy (hmem.imp_right (List.mem_cons_of_mem _)) z hz with hz' | hz'
          · exact .inl hz'
          · rcases List.mem_cons.mp hz' with heq | hz'
            · exact .inl (heq ▸ hself)
            · exact .inr hz'

/-- Up to their keys, the nodes below a root are those that its visit yields. -/
theorem mem_visit_iff (hweight : ∀ x, ((children x).map weight).sum + 2 ≤ weight x) {root : α}
    (hkey : ∀ x y, Below children root x → Below children root y → key x = key y →
      ∀ z ∈ children x, ∃ w ∈ children y, key w = key z)
    {n : ℕ} (hfuel : weight root < n) {k : κ} :
    k ∈ (visit children key n [root] []).map key ↔ ∃ y, Below children root y ∧ key y = k := by
  constructor
  · intro hk
    obtain ⟨y, hy, rfl⟩ := List.mem_map.mp hk
    obtain ⟨x, hx, hbelow⟩ := below_of_mem_visit hy
    rw [List.mem_singleton.mp hx] at hbelow
    exact ⟨y, hbelow, rfl⟩
  · rintro ⟨y, hy, rfl⟩
    obtain ⟨hall, hclosed⟩ := visit_closed hweight
      (fun x (hx : Below children root x) y hy => hx.tail hy) hkey [root] [] (by simpa [cost] using hfuel)
      (fun x hx => by rw [List.mem_singleton.mp hx]; exact .refl root) (by simp)
    induction hy with
    | refl => exact hall root List.mem_cons_self
    | tail hx hz ih => simpa using hclosed _ hx (.inl ih) _ hz

end complete

end Worklist
