/-!
# Contexts on a stack

A context is entered and exited, and both may raise an exception. `withStack` enters contexts one after the other, runs
a body, and exits those that were entered in reverse, each with the exception that is on its way. This is the same as
nesting the contexts (`withStack_cons`).
-/

namespace ExitStack

variable {σ ε : Type}

structure Context (σ ε : Type) where
  enter : σ → Option ε × σ
  /-- Given the exception on its way, the one that goes on. -/
  exit : Option ε → σ → Option ε × σ

/-- Exit the contexts of a stack. -/
def unwind : List (Context σ ε) → Option ε → σ → Option ε × σ
  | [], e, s => (e, s)
  | c :: stack, e, s => unwind stack (c.exit e s).1 (c.exit e s).2

/-- Enter the contexts that are left, run the body, and exit all that were entered. -/
def enterAll (body : σ → Option ε × σ) : List (Context σ ε) → List (Context σ ε) → σ → Option ε × σ
  | [], stack, s => unwind stack (body s).1 (body s).2
  | c :: rest, stack, s =>
    match (c.enter s).1 with
    | some e => unwind stack (some e) (c.enter s).2
    | none => enterAll body rest (c :: stack) (c.enter s).2

def withStack (contexts : List (Context σ ε)) (body : σ → Option ε × σ) (s : σ) : Option ε × σ :=
  enterAll body contexts [] s

/-- A single context around a body. -/
def Context.within (c : Context σ ε) (body : σ → Option ε × σ) (s : σ) : Option ε × σ :=
  match (c.enter s).1 with
  | some e => (some e, (c.enter s).2)
  | none => c.exit (body (c.enter s).2).1 (body (c.enter s).2).2

variable {body : σ → Option ε × σ} {c : Context σ ε} {s s' : σ} {e : Option ε}

theorem within_of_raised {x : ε} {t : σ} (h : c.enter s = (some x, t)) : c.within body s = (some x, t) := by
  rw [Context.within, h]

theorem within_of_entered {t : σ} (h : c.enter s = (none, t)) : c.within body s = c.exit (body t).1 (body t).2 := by
  rw [Context.within, h]

theorem enterAll_cons_of_raised {rest stack : List (Context σ ε)} {x : ε} {t : σ} (h : c.enter s = (some x, t)) :
    enterAll body (c :: rest) stack s = unwind stack (some x) t := by
  rw [enterAll, h]

theorem enterAll_cons_of_entered {rest stack : List (Context σ ε)} {t : σ} (h : c.enter s = (none, t)) :
    enterAll body (c :: rest) stack s = enterAll body rest (c :: stack) t := by
  rw [enterAll, h]

theorem enterAll_eq (contexts stack : List (Context σ ε)) (s : σ) :
    enterAll body contexts stack s =
      unwind stack (withStack contexts body s).1 (withStack contexts body s).2 := by
  induction contexts generalizing stack s with
  | nil => rfl
  | cons c rest ih =>
    unfold withStack
    rcases hx : c.enter s with ⟨x, t⟩
    cases x with
    | some x =>
      rw [enterAll_cons_of_raised hx, enterAll_cons_of_raised hx]
      rfl
    | none =>
      rw [enterAll_cons_of_entered hx, enterAll_cons_of_entered hx, ih (c :: stack), ih [c]]
      rfl

@[simp] theorem withStack_nil : withStack [] body s = body s := rfl

theorem withStack_cons (c : Context σ ε) (rest : List (Context σ ε)) (s : σ) :
    withStack (c :: rest) body s = c.within (withStack rest body) s := by
  rcases hx : c.enter s with ⟨x, t⟩
  cases x with
  | some x => rw [withStack, enterAll_cons_of_raised hx, within_of_raised hx]; rfl
  | none => rw [withStack, enterAll_cons_of_entered hx, within_of_entered hx, enterAll_eq]; rfl

theorem withStack_append (contexts rest : List (Context σ ε)) (s : σ) :
    withStack (contexts ++ rest) body s = withStack contexts (withStack rest body) s := by
  induction contexts generalizing s with
  | nil => rfl
  | cons c contexts ih =>
    rw [List.cons_append, withStack_cons, withStack_cons]
    unfold Context.within
    simp only [ih]

/-- What the body and every context keep is kept, whatever they raise. -/
theorem withStack_keeps {I : σ → Prop} {contexts : List (Context σ ε)} (hbody : ∀ s, I s → I (body s).2)
    (henter : ∀ c ∈ contexts, ∀ s, I s → I (c.enter s).2) (hexit : ∀ c ∈ contexts, ∀ e s, I s → I (c.exit e s).2)
    (hs : I s) : I (withStack contexts body s).2 := by
  induction contexts generalizing s with
  | nil => exact hbody s hs
  | cons c rest ih =>
    rw [withStack_cons]
    have hentered := henter c (.head _) s hs
    rcases hx : c.enter s with ⟨x, t⟩
    rw [hx] at hentered
    cases x with
    | some x => rwa [within_of_raised hx]
    | none =>
      rw [within_of_entered hx]
      exact hexit c (.head _) _ _
        (ih (fun d hd => henter d (.tail _ hd)) (fun d hd => hexit d (.tail _ hd)) hentered)

end ExitStack
