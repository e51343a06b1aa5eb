import Mathlib.Logic.Nontrivial.Defs
import Mathlib.Tactic.Common

/-!
# Nested transactions on one connection

A connection has a committed content and a current one, which the writes change. Leaving a
transaction normally commits the current content, leaving it by an exception goes back to the
committed one (`Exec`); so a transaction inside another one commits the writes of both.

A program is atomic when its outermost transaction, if it raises, leaves the committed content as it
was. It is enough that no inner transaction is left with a write pending (`Keeps`), which composes:
what writes nothing (`Prog.Dry`) may come before, what has no inner transaction (`Prog.Joined`) after.
-/

namespace Transaction

/-- What a method does to its connection. -/
inductive Prog where
  | skip
  /-- A place that may raise. -/
  | point
  | raise
  /-- A row write, which may raise instead. -/
  | write
  | seq (p q : Prog)
  | choice (p q : Prog)
  /-- Any number of times. -/
  | loop (p : Prog)
  /-- `with connection: p`. -/
  | transaction (p : Prog)
  /-- `try: p`, `except: handler; raise`. -/
  | guarded (p handler : Prog)

inductive Outcome where
  | returned
  | raised
  deriving DecidableEq

structure Conn (σ : Type) where
  committed : σ
  current : σ

namespace Conn

variable {σ : Type}

def commit (s : Conn σ) : Conn σ := ⟨s.current, s.current⟩

def rollback (s : Conn σ) : Conn σ := ⟨s.committed, s.committed⟩

end Conn

/-- The runs of a program. A write leads to any content. -/
inductive Exec {σ : Type} : Prog → Conn σ → Outcome → Conn σ → Prop
  | skip (s : Conn σ) : Exec .skip s .returned s
  | pass (s : Conn σ) : Exec .point s .returned s
  | pointRaise (s : Conn σ) : Exec .point s .raised s
  | raise (s : Conn σ) : Exec .raise s .raised s
  | write (s : Conn σ) (v : σ) : Exec .write s .returned ⟨s.committed, v⟩
  | writeRaise (s : Conn σ) : Exec .write s .raised s
  | seq {p q : Prog} {s s₁ s₂ : Conn σ} {o : Outcome} (hp : Exec p s .returned s₁) (hq : Exec q s₁ o s₂) :
      Exec (.seq p q) s o s₂
  | seqRaise {p q : Prog} {s s₁ : Conn σ} (hp : Exec p s .raised s₁) : Exec (.seq p q) s .raised s₁
  | left {p q : Prog} {s s₁ : Conn σ} {o : Outcome} (hp : Exec p s o s₁) : Exec (.choice p q) s o s₁
  | right {p q : Prog} {s s₁ : Conn σ} {o : Outcome} (hq : Exec q s o s₁) : Exec (.choice p q) s o s₁
  | done {p : Prog} (s : Conn σ) : Exec (.loop p) s .returned s
  | again {p : Prog} {s s₁ s₂ : Conn σ} {o : Outcome} (hp : Exec p s .returned s₁)
      (hrest : Exec (.loop p) s₁ o s₂) : Exec (.loop p) s o s₂
  | againRaise {p : Prog} {s s₁ : Conn σ} (hp : Exec p s .raised s₁) : Exec (.loop p) s .raised s₁
  | commit {p : Prog} {s s₁ : Conn σ} (hp : Exec p s .returned s₁) :
      Exec (.transaction p) s .returned s₁.commit
  | rollback {p : Prog} {s s₁ : Conn σ} (hp : Exec p s .raised s₁) :
      Exec (.transaction p) s .raised s₁.rollback
  | guarded {p handler : Prog} {s s₁ : Conn σ} (hp : Exec p s .returned s₁) :
      Exec (.guarded p handler) s .returned s₁
  | handled {p handler : Prog} {s s₁ s₂ : Conn σ} {o : Outcome} (hp : Exec p s .raised s₁)
      (hhandler : Exec handler s₁ o s₂) : Exec (.guarded p handler) s .raised s₂

namespace Prog

/-- The statements of a list, one after the other. -/
def block : List Prog → Prog
  | [] => .skip
  | p :: rest => .seq p (block rest)

def times (p : Prog) : ℕ → Prog
  | 0 => .skip
  | n + 1 => .seq p (times p n)

/-- No writes. -/
def Dry : Prog → Prop
  | .skip | .point | .raise => True
  | .write => False
  | .seq p q | .choice p q | .guarded p q => p.Dry ∧ q.Dry
  | .loop p | .transaction p => p.Dry

/-- No inner transaction. -/
def Joined : Prog → Prop
  | .skip | .point | .raise | .write => True
  | .seq p q | .choice p q | .guarded p q => p.Joined ∧ q.Joined
  | .loop p => p.Joined
  | .transaction _ => False

@[simp] theorem dry_times {p : Prog} (h : p.Dry) (n : ℕ) : (p.times n).Dry := by
  induction n with
  | zero => trivial
  | succ n ih => exact ⟨h, ih⟩

@[simp] theorem joined_times {p : Prog} (h : p.Joined) (n : ℕ) : (p.times n).Joined := by
  induction n with
  | zero => trivial
  | succ n ih => exact ⟨h, ih⟩

/-- Whatever happens from a connection without pending writes, the committed content stays. -/
def Keeps (σ : Type) (p : Prog) : Prop :=
  ∀ (s : σ) (o : Outcome) (s' : Conn σ), Exec p ⟨s, s⟩ o s' → s'.committed = s

/-- An outermost transaction that raises leaves the committed content as it was. -/
def Atomic (σ : Type) (p : Prog) : Prop :=
  ∀ (s : σ) (s' : Conn σ), Exec (.transaction p) ⟨s, s⟩ .raised s' → s'.committed = s

end Prog

variable {σ : Type} {p q : Prog} {s s' : Conn σ} {o : Outcome}

theorem Exec.joined (h : Exec p s o s') (hp : p.Joined) : s'.committed = s.committed := by
  induction h with
  | skip | pass | pointRaise | raise | write | writeRaise | done => rfl
  | seq _ _ ihp ihq => exact (ihq hp.2).trans (ihp hp.1)
  | seqRaise _ ihp => exact ihp hp.1
  | left _ ihp => exact ihp hp.1
  | right _ ihq => exact ihq hp.2
  | again _ _ ihp ihrest => exact (ihrest hp).trans (ihp hp)
  | againRaise _ ihp => exact ihp hp
  | commit | rollback => exact hp.elim
  | guarded _ ihp => exact ihp hp.1
  | handled _ _ ihp ihh => exact (ihh hp.2).trans (ihp hp.1)

theorem Exec.dry (h : Exec p s o s') (hp : p.Dry) (hclean : s.current = s.committed) : s' = s := by
  induction h with
  | skip | pass | pointRaise | raise | writeRaise | done => rfl
  | write => exact hp.elim
  | seq _ _ ihp ihq =>
    have h₁ := ihp hp.1 hclean
    rw [ihq hp.2 (h₁ ▸ hclean), h₁]
  | seqRaise _ ihp => exact ihp hp.1 hclean
  | left _ ihp => exact ihp hp.1 hclean
  | right _ ihq => exact ihq hp.2 hclean
  | again _ _ ihp ihrest =>
    have h₁ := ihp hp hclean
    rw [ihrest hp (h₁ ▸ hclean), h₁]
  | againRaise _ ihp => exact ihp hp hclean
  | @commit _ s _ _ ihp =>
    rw [ihp hp hclean]
    obtain ⟨committed, current⟩ := s
    exact congrArg₂ Conn.mk hclean rfl
  | @rollback _ s _ _ ihp =>
    rw [ihp hp hclean]
    obtain ⟨committed, current⟩ := s
    exact congrArg₂ Conn.mk rfl hclean.symm
  | guarded _ ihp => exact ihp hp.1 hclean
  | handled _ _ ihp ihh =>
    have h₁ := ihp hp.1 hclean
    rw [ihh hp.2 (h₁ ▸ hclean), h₁]

namespace Prog

theorem keeps_of_joined (hp : p.Joined) : p.Keeps σ := fun _ _ _ h => h.joined hp

theorem keeps_of_dry (hp : p.Dry) : p.Keeps σ := fun _ _ _ h => by rw [h.dry hp rfl]

theorem keeps_seq_of_dry (hp : p.Dry) (hq : q.Keeps σ) : (Prog.seq p q).Keeps σ := by
  intro s o s' h
  cases h with
  | seq h₁ h₂ =>
    rw [h₁.dry hp rfl] at h₂
    exact hq _ _ _ h₂
  | seqRaise h₁ => rw [h₁.dry hp rfl]

theorem keeps_seq_of_joined (hp : p.Keeps σ) (hq : q.Joined) : (Prog.seq p q).Keeps σ := by
  intro s o s' h
  cases h with
  | seq h₁ h₂ => exact (h₂.joined hq).trans (hp _ _ _ h₁)
  | seqRaise h₁ => exact hp _ _ _ h₁

theorem atomic_of_keeps (hp : p.Keeps σ) : p.Atomic σ := by
  intro s s' h
  cases h with
  | rollback h =>
    have hkept := hp _ _ _ h
    exact hkept

theorem not_atomic_of_leak {s v : σ} {s' : Conn σ} (hne : v ≠ s) (h : Exec p ⟨s, s⟩ .raised s')
    (hcommitted : s'.committed = v) : ¬ p.Atomic σ :=
  fun hatomic => hne (hcommitted.symm.trans (hatomic s s'.rollback (.rollback h)))

end Prog

end Transaction
