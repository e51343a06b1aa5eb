import Mathlib.Data.List.Chain
import Mathlib.Data.List.Nodup
import Mathlib.Logic.Relation

/-!
# Path-vector routing

Each node keeps at most one route to a destination: the nodes after it, up to an origin of the destination. It learns
the route from a neighbour that it has a session with, and takes no route that it is part of. Once the tables are
stable, every node that sessions connect with an origin has a route (`Stable.exists_route`), a route is a chain of
sessions without loops that ends at an origin (`Stable.isRoute`), and passing a packet on to the next node follows it
(`Stable.forward_eq`).
-/

namespace PathVector

variable {α : Type} {session : α → α → Prop} {origin : α → Prop} {rib : α → Option (List α)}

/-- No node has a reason to change its route: what it has is what it or the next node offers, and a node without a route
is offered none. -/
structure Stable (session : α → α → Prop) (origin : α → Prop) (rib : α → Option (List α)) : Prop where
  local_origin : ∀ a, rib a = some [] → origin a
  learned : ∀ a c p, rib a = some (c :: p) → session a c ∧ rib c = some p ∧ a ∉ c :: p
  not_origin : ∀ a, rib a = none → ¬ origin a
  not_offered : ∀ a c p, rib a = none → session a c → rib c = some p → a ∈ c :: p

/-- A chain of sessions without loops from `a` to an origin. -/
structure IsRoute (session : α → α → Prop) (origin : α → Prop) (a : α) (p : List α) : Prop where
  chain : (a :: p).IsChain session
  nodup : (a :: p).Nodup
  ends : origin ((a :: p).getLast (List.cons_ne_nil a p))

theorem Stable.isRoute (h : Stable session origin rib) {a : α} {p : List α} (ha : rib a = some p) :
    IsRoute session origin a p := by
  induction p generalizing a with
  | nil => exact ⟨List.isChain_singleton a, List.nodup_singleton a, h.local_origin a ha⟩
  | cons c p ih =>
    obtain ⟨hsession, hc, hloop⟩ := h.learned a c p ha
    have hroute := ih hc
    refine ⟨List.isChain_cons_cons.mpr ⟨hsession, hroute.chain⟩, List.nodup_cons.mpr ⟨hloop, hroute.nodup⟩, ?_⟩
    rw [List.getLast_cons (List.cons_ne_nil c p)]
    exact hroute.ends

theorem Stable.exists_route_of_mem (h : Stable session origin rib) {a : α} {p : List α} (ha : rib a = some p) {x : α}
    (hx : x ∈ a :: p) : ∃ q, rib x = some q := by
  induction p generalizing a with
  | nil =>
    rw [List.mem_singleton] at hx
    exact ⟨[], hx ▸ ha⟩
  | cons c p ih =>
    rcases List.mem_cons.mp hx with rfl | hx
    · exact ⟨_, ha⟩
    · exact ih (h.learned a c p ha).2.1 hx

theorem Stable.exists_route (h : Stable session origin rib) {a o : α} (ho : origin o)
    (hpath : Relation.ReflTransGen session a o) : ∃ p, rib a = some p := by
  induction hpath using Relation.ReflTransGen.head_induction_on with
  | refl =>
    rcases hrib : rib o with - | p
    · exact absurd ho (h.not_origin o hrib)
    · exact ⟨p, rfl⟩
  | @head a c hsession _ ih =>
    obtain ⟨p, hc⟩ := ih
    rcases hrib : rib a with - | q
    · -- the neighbour's route would pass through a node without one
      obtain ⟨q, hq⟩ := h.exists_route_of_mem hc (h.not_offered a c p hrib hsession hc)
      rw [hrib] at hq
      exact absurd hq (by simp)
    · exact ⟨q, rfl⟩

/-- The nodes that a packet passes after `a`, in at most `n` hops. -/
def forward (rib : α → Option (List α)) : ℕ → α → List α
  | 0, _ => []
  | n + 1, a =>
    match rib a with
    | some (c :: _) => c :: forward rib n c
    | _ => []

theorem Stable.forward_eq (h : Stable session origin rib) {a : α} {p : List α} (ha : rib a = some p) {n : ℕ}
    (hn : p.length ≤ n) : forward rib n a = p := by
  induction p generalizing a n with
  | nil =>
    cases n with
    | zero => rfl
    | succ n => rw [forward, ha]
  | cons c p ih =>
    cases n with
    | zero => exact absurd hn (Nat.not_succ_le_zero _)
    | succ n =>
      rw [forward, ha]
      exact congrArg (c :: ·) (ih (h.learned a c p ha).2.1 (Nat.le_of_succ_le_succ hn))

end PathVector
