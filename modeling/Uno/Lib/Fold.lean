import Mathlib.Data.List.Basic
import Mathlib.Data.List.Induction
import Mathlib.Data.List.Forall2
import Mathlib.Logic.Function.Basic

/-!
# Computations that may fail

Inversion of `bind` in `Except ε`, and folds over a list whose steps may fail: two folds whose steps
agree on the elements of the list agree (`foldlM_congr`), what every step keeps, a successful fold
keeps (`foldlM_invariant`), and a fold over the indexed elements of a list succeeds when every step
succeeds and takes an invariant from its index to the next (`foldlM_zipIdx_total`). A computation avoids
exceptions of a kind when its parts do (`Except.Avoids`).
-/

namespace Except

variable {ε α β : Type}

@[simp] theorem ok_bind (a : α) (f : α → Except ε β) : (.ok a >>= f : Except ε β) = f a := rfl

@[simp] theorem error_bind (e : ε) (f : α → Except ε β) : (.error e >>= f : Except ε β) = .error e := rfl

@[simp] theorem bind_ok (x : Except ε α) : (x >>= fun a => .ok a) = x := by
  cases x <;> rfl

theorem pure_eq_ok (a : α) : (pure a : Except ε α) = .ok a := rfl

theorem bind_eq_ok_iff {x : Except ε α} {f : α → Except ε β} {b : β} :
    x >>= f = .ok b ↔ ∃ a, x = .ok a ∧ f a = .ok b := by
  cases x with
  | error e => simp [bind, Except.bind]
  | ok a => simp [bind, Except.bind]

theorem bind_eq_error_iff {x : Except ε α} {f : α → Except ε β} {e : ε} :
    x >>= f = .error e ↔ x = .error e ∨ ∃ a, x = .ok a ∧ f a = .error e := by
  cases x with
  | error e' => simp [bind, Except.bind]
  | ok a => simp [bind, Except.bind]

theorem map_eq_ok_iff {f : α → β} {x : Except ε α} {b : β} : f <$> x = .ok b ↔ ∃ a, x = .ok a ∧ f a = b := by
  cases x with
  | error e => simp
  | ok a => simp

theorem exists_map_and {f : α → β} {x : Except ε α} {Q : β → Prop} :
    (∃ b, f <$> x = .ok b ∧ Q b) ↔ ∃ a, x = .ok a ∧ Q (f a) := by
  cases x with
  | error e => simp
  | ok a => simp

theorem exists_map_eq_ok {f : α → β} {x : Except ε α} : (∃ b, f <$> x = .ok b) ↔ ∃ a, x = .ok a := by
  cases x with
  | error e => simp
  | ok a => simp

/-! ### Exceptions that are not raised -/

/-- The computation raises no exception of a kind. -/
def Avoids (bad : ε → Prop) (x : Except ε α) : Prop := ∀ e, x = .error e → ¬ bad e

namespace Avoids

variable {bad : ε → Prop}

theorem of_eq_ok {x : Except ε α} {a : α} (h : x = .ok a) : Avoids bad x := by
  intro e he
  rw [h] at he
  cases he

theorem of_error {e : ε} (h : ¬ bad e) : Avoids bad (.error e : Except ε α) := by
  intro e' he
  rw [← Except.error.inj he]
  exact h

theorem bind {x : Except ε α} {f : α → Except ε β} (hx : Avoids bad x) (hf : ∀ a, x = .ok a → Avoids bad (f a)) :
    Avoids bad (x >>= f) := by
  intro e he
  rcases bind_eq_error_iff.mp he with he | ⟨a, ha, he⟩
  · exact hx e he
  · exact hf a ha e he

theorem foldlM {f : β → α → Except ε β} {l : List α} (h : ∀ b, ∀ a ∈ l, Avoids bad (f b a)) (b : β) :
    Avoids bad (l.foldlM f b) := by
  induction l generalizing b with
  | nil => exact of_eq_ok rfl
  | cons a rest ih =>
    rw [List.foldlM_cons]
    exact (h b a List.mem_cons_self).bind fun b' _ => ih (fun b a ha => h b a (List.mem_cons_of_mem _ ha)) b'

theorem mapM {f : α → Except ε β} {l : List α} (h : ∀ a ∈ l, Avoids bad (f a)) : Avoids bad (l.mapM f) := by
  induction l with
  | nil => exact of_eq_ok rfl
  | cons a rest ih =>
    rw [List.mapM_cons]
    exact (h a List.mem_cons_self).bind fun b _ =>
      (ih fun a ha => h a (List.mem_cons_of_mem _ ha)).bind fun bs _ => of_eq_ok rfl

theorem forM {f : α → Except ε Unit} {l : List α} (h : ∀ a ∈ l, Avoids bad (f a)) : Avoids bad (forM l f) := by
  induction l with
  | nil => exact of_eq_ok rfl
  | cons a rest ih =>
    rw [List.forM_cons]
    exact (h a List.mem_cons_self).bind fun _ _ => ih fun a ha => h a (List.mem_cons_of_mem _ ha)

end Avoids

end Except

namespace Fold

variable {ε α β : Type}

theorem foldlM_congr {m : Type → Type} [Monad m] {f g : β → α → m β}
    {l : List α} (h : ∀ b, ∀ a ∈ l, f b a = g b a) (b : β) : l.foldlM f b = l.foldlM g b := by
  induction l generalizing b with
  | nil => rfl
  | cons a rest ih =>
    rw [List.foldlM_cons, List.foldlM_cons, h b a List.mem_cons_self]
    congr 1
    funext b'
    exact ih (fun b a ha => h b a (List.mem_cons_of_mem _ ha)) b'

/-- Folds whose steps agree where an invariant holds agree. -/
theorem foldlM_congr_of_invariant {f g : β → α → Except ε β} {l : List α} {P : β → Prop}
    (h : ∀ b, P b → ∀ a ∈ l, f b a = g b a) (hstep : ∀ b b', ∀ a ∈ l, P b → g b a = .ok b' → P b') {b : β}
    (hb : P b) : l.foldlM f b = l.foldlM g b := by
  induction l generalizing b with
  | nil => rfl
  | cons a rest ih =>
    rw [List.foldlM_cons, List.foldlM_cons, h b hb a List.mem_cons_self]
    cases hg : g b a with
    | error e => rfl
    | ok b' =>
      exact ih (fun b hb a ha => h b hb a (List.mem_cons_of_mem _ ha))
        (fun b b' a ha => hstep b b' a (List.mem_cons_of_mem _ ha)) (hstep b b' a List.mem_cons_self hb hg)

theorem foldlM_flatMap {γ : Type} {m : Type → Type} [Monad m] [LawfulMonad m] (g : γ → List α) (f : β → α → m β)
    (l : List γ) (b : β) : (l.flatMap g).foldlM f b = l.foldlM (fun b c => (g c).foldlM f b) b := by
  induction l generalizing b with
  | nil => rfl
  | cons c rest ih =>
    rw [List.flatMap_cons, List.foldlM_append, List.foldlM_cons]
    congr 1
    funext b'
    exact ih b'

theorem foldlM_eq_ok {f : β → α → Except ε β} {g : β → α → β} {l : List α}
    (h : ∀ b, ∀ a ∈ l, f b a = .ok (g b a)) (b : β) : l.foldlM f b = .ok (l.foldl g b) := by
  induction l generalizing b with
  | nil => rfl
  | cons a rest ih =>
    rw [List.foldlM_cons, h b a List.mem_cons_self]
    exact ih (fun b a ha => h b a (List.mem_cons_of_mem _ ha)) (g b a)

theorem mapM_eq_ok {f : α → Except ε β} {g : α → β} {l : List α} (h : ∀ a ∈ l, f a = .ok (g a)) :
    l.mapM f = .ok (l.map g) := by
  induction l with
  | nil => rfl
  | cons a rest ih =>
    rw [List.mapM_cons, h a List.mem_cons_self, ih fun a ha => h a (List.mem_cons_of_mem _ ha)]
    rfl

theorem mapM_eq_ok_iff {f : α → Except ε β} {l : List α} {r : List β} :
    l.mapM f = .ok r ↔ List.Forall₂ (fun a b => f a = .ok b) l r := by
  induction l generalizing r with
  | nil => simp [Except.pure_eq_ok, eq_comm]
  | cons a rest ih =>
    rw [List.mapM_cons, Except.bind_eq_ok_iff, List.forall₂_cons_left_iff]
    constructor
    · rintro ⟨b, hb, hrest⟩
      obtain ⟨bs, hbs, heq⟩ := Except.bind_eq_ok_iff.mp hrest
      cases heq
      exact ⟨b, bs, hb, ih.mp hbs, rfl⟩
    · rintro ⟨b, bs, hb, hbs, rfl⟩
      exact ⟨b, hb, Except.bind_eq_ok_iff.mpr ⟨bs, ih.mpr hbs, rfl⟩⟩

theorem mapM_congr {f g : α → Except ε β} {l : List α} (h : ∀ a ∈ l, f a = g a) : l.mapM f = l.mapM g := by
  induction l with
  | nil => rfl
  | cons a rest ih =>
    rw [List.mapM_cons, List.mapM_cons, h a List.mem_cons_self, ih fun a ha => h a (List.mem_cons_of_mem _ ha)]

theorem map_mapM {γ : Type} (h : β → γ) (f : α → Except ε β) (l : List α) :
    List.map h <$> l.mapM f = l.mapM fun a => h <$> f a := by
  induction l with
  | nil => rfl
  | cons a rest ih =>
    rw [List.mapM_cons, List.mapM_cons, ← ih]
    cases f a with
    | error e => rfl
    | ok b =>
      cases rest.mapM f with
      | error e => rfl
      | ok bs => rfl

theorem exists_mapM_eq_ok {f : α → Except ε β} {l : List α} :
    (∃ r, l.mapM f = .ok r) ↔ ∀ a ∈ l, ∃ b, f a = .ok b := by
  induction l with
  | nil => simp [Except.pure_eq_ok]
  | cons a rest ih =>
    rw [List.forall_mem_cons, ← ih]
    simp only [mapM_eq_ok_iff, List.forall₂_cons_left_iff]
    constructor
    · rintro ⟨r, b, bs, hb, hbs, rfl⟩
      exact ⟨⟨b, hb⟩, bs, hbs⟩
    · rintro ⟨⟨b, hb⟩, bs, hbs⟩
      exact ⟨_, b, bs, hb, hbs, rfl⟩

/-- When each element either has a known result or fails, `mapM` succeeds when no element fails. -/
theorem mapM_eq_ok_iff_of_cases {f : α → Except ε β} {g : α → β} {P : α → Prop} {l : List α} {r : List β}
    (hok : ∀ a ∈ l, P a → f a = .ok (g a)) (herror : ∀ a ∈ l, ¬P a → ∃ e, f a = .error e) :
    l.mapM f = .ok r ↔ (∀ a ∈ l, P a) ∧ r = l.map g := by
  constructor
  · intro h
    have hall : ∀ a ∈ l, P a := by
      intro a ha
      by_contra hP
      obtain ⟨e, he⟩ := herror a ha hP
      obtain ⟨b, hb⟩ := exists_mapM_eq_ok.mp ⟨r, h⟩ a ha
      rw [he] at hb
      cases hb
    rw [mapM_eq_ok fun a ha => hok a ha (hall a ha), Except.ok.injEq] at h
    exact ⟨hall, h.symm⟩
  · rintro ⟨hall, rfl⟩
    exact mapM_eq_ok fun a ha => hok a ha (hall a ha)

theorem forM_eq_ok_iff {f : α → Except ε Unit} {l : List α} :
    forM l f = .ok () ↔ ∀ a ∈ l, f a = .ok () := by
  induction l with
  | nil => simp [Except.pure_eq_ok]
  | cons a rest ih =>
    rw [List.forM_cons, Except.bind_eq_ok_iff, List.forall_mem_cons, ← ih]
    exact ⟨fun ⟨_, ha, hrest⟩ => ⟨ha, hrest⟩, fun ⟨ha, hrest⟩ => ⟨_, ha, hrest⟩⟩

theorem foldlM_invariant {f : β → α → Except ε β} {l : List α} {P : β → Prop}
    (hstep : ∀ b b', ∀ a ∈ l, P b → f b a = .ok b' → P b') {b b' : β} (hb : P b)
    (h : l.foldlM f b = .ok b') : P b' := by
  induction l generalizing b with
  | nil =>
    cases h
    exact hb
  | cons a rest ih =>
    rw [List.foldlM_cons, Except.bind_eq_ok_iff] at h
    obtain ⟨b₁, hb₁, hrest⟩ := h
    exact ih (fun b b' a ha => hstep b b' a (List.mem_cons_of_mem _ ha))
      (hstep b b₁ a List.mem_cons_self hb hb₁) hrest

theorem foldlM_zipIdx_total {f : β → α × ℕ → Except ε β} {l : List α} {P : ℕ → β → Prop}
    (hstep : ∀ k a b, l[k]? = some a → P k b → ∃ b', f b (a, k) = .ok b' ∧ P (k + 1) b') {b : β}
    (hb : P 0 b) : ∃ b', l.zipIdx.foldlM f b = .ok b' ∧ P l.length b' := by
  induction l using List.reverseRecOn with
  | nil => exact ⟨b, rfl, hb⟩
  | append_singleton init a ih =>
    have hinit : ∀ k a' b, init[k]? = some a' → P k b → ∃ b', f b (a', k) = .ok b' ∧ P (k + 1) b' := by
      intro k a' b hk
      have hlt := (List.getElem?_eq_some_iff.mp hk).1
      exact hstep k a' b (by rwa [List.getElem?_append_left hlt])
    obtain ⟨b₁, hfold, hb₁⟩ := ih hinit
    obtain ⟨b₂, hlast, hb₂⟩ := hstep init.length a b₁ (by simp) hb₁
    refine ⟨b₂, ?_, by rwa [List.length_append]⟩
    rw [List.zipIdx_append, List.foldlM_append, hfold]
    simp only [bind, Except.bind, List.zipIdx_cons, List.zipIdx_nil, List.foldlM_cons, List.foldlM_nil,
      Nat.zero_add, hlast]
    rfl

theorem foldlM_update_iff {κ : Type} [DecidableEq κ] (f : κ → β → Except ε β) {l : List κ} (hl : l.Nodup) {g g' : κ → β} :
    l.foldlM (fun (g : κ → β) k => do .ok (Function.update g k (← f k (g k)))) g = .ok g' ↔
      (∀ k ∈ l, f k (g k) = .ok (g' k)) ∧ ∀ k ∉ l, g' k = g k := by
  induction l generalizing g with
  | nil =>
    simp only [List.foldlM_nil, Except.pure_eq_ok, Except.ok.injEq, List.not_mem_nil, false_implies, implies_true,
      not_false_eq_true, true_implies, true_and]
    exact ⟨fun h k => by rw [h], fun h => (funext h).symm⟩
  | cons k rest ih =>
    obtain ⟨hfresh, hrest⟩ := List.nodup_cons.mp hl
    rw [List.foldlM_cons, Except.bind_eq_ok_iff]
    constructor
    · rintro ⟨g₁, hg₁, hfold⟩
      obtain ⟨b, hb, heq⟩ := Except.bind_eq_ok_iff.mp hg₁
      cases heq
      obtain ⟨hmem, hother⟩ := (ih hrest).mp hfold
      refine ⟨fun k' hk' => ?_, fun k' hk' => ?_⟩
      · rcases List.mem_cons.mp hk' with rfl | hk'
        · rw [hother _ hfresh, Function.update_self, hb]
        · rw [← hmem k' hk', Function.update_of_ne (ne_of_mem_of_not_mem hk' hfresh)]
      · rw [List.mem_cons, not_or] at hk'
        rw [hother k' hk'.2, Function.update_of_ne hk'.1]
    · rintro ⟨hmem, hother⟩
      refine ⟨Function.update g k (g' k), ?_, (ih hrest).mpr ⟨fun k' hk' => ?_, fun k' hk' => ?_⟩⟩
      · rw [hmem k List.mem_cons_self]
        rfl
      · rw [Function.update_of_ne (ne_of_mem_of_not_mem hk' hfresh), hmem k' (List.mem_cons_of_mem _ hk')]
      · by_cases heq : k' = k
        · rw [heq, Function.update_self]
        · rw [Function.update_of_ne heq, hother k' (by simp [heq, hk'])]

theorem exists_foldlM_update {κ : Type} [DecidableEq κ] (f : κ → β → Except ε β) {l : List κ} (hl : l.Nodup) {g : κ → β}
    (h : ∀ k ∈ l, ∃ b, f k (g k) = .ok b) :
    ∃ g', l.foldlM (fun (g : κ → β) k => do .ok (Function.update g k (← f k (g k)))) g = .ok g' ∧
      (∀ k ∈ l, f k (g k) = .ok (g' k)) ∧ ∀ k ∉ l, g' k = g k := by
  have hchoice : ∀ k, ∃ b, (k ∈ l → f k (g k) = .ok b) ∧ (k ∉ l → b = g k) := by
    intro k
    by_cases hk : k ∈ l
    · obtain ⟨b, hb⟩ := h k hk
      exact ⟨b, fun _ => hb, fun hnot => absurd hk hnot⟩
    · exact ⟨g k, fun hmem => absurd hmem hk, fun _ => rfl⟩
  choose g' hmem hother using hchoice
  exact ⟨g', (foldlM_update_iff f hl).mpr ⟨hmem, hother⟩, hmem, hother⟩

/-! ### Sequences of results -/

/-- The results of a list of computations, in order. -/
def sequence (xs : List (Except ε α)) : Except ε (List α) := xs.mapM id

theorem sequence_map (f : α → Except ε β) (xs : List α) : sequence (xs.map f) = xs.mapM f := by
  rw [sequence, List.mapM_map]
  rfl

theorem exists_sequence {f : α → Except ε β} {xs : List α} :
    (∃ r, sequence (xs.map f) = .ok r) ↔ ∀ x ∈ xs, ∃ b, f x = .ok b := by
  rw [sequence_map]
  exact exists_mapM_eq_ok

theorem mem_of_sequence {f : α → Except ε β} {xs : List α} {r : List β} (h : sequence (xs.map f) = .ok r) :
    (∀ y ∈ r, ∃ x ∈ xs, f x = .ok y) ∧ ∀ x ∈ xs, ∃ y ∈ r, f x = .ok y := by
  rw [sequence_map, mapM_eq_ok_iff] at h
  induction h with
  | nil => simp
  | cons hxy hrest ih =>
    simp only [List.forall_mem_cons, List.exists_mem_cons_iff]
    exact ⟨⟨.inl hxy, fun y hy => .inr (ih.1 y hy)⟩, .inl hxy, fun x hx => .inr (ih.2 x hx)⟩

theorem length_of_sequence {f : α → Except ε β} {xs : List α} {r : List β} (h : sequence (xs.map f) = .ok r) :
    xs.length = r.length := by
  rw [sequence_map, mapM_eq_ok_iff] at h
  exact h.length_eq

theorem exists_sequence_and {f : α → Except ε β} {xs : List α} {Q : β → Prop} :
    (∃ r, sequence (xs.map f) = .ok r ∧ ∀ y ∈ r, Q y) ↔ ∀ x ∈ xs, ∃ y, f x = .ok y ∧ Q y := by
  constructor
  · rintro ⟨r, hr, hQ⟩ x hx
    obtain ⟨y, hy, hxy⟩ := (mem_of_sequence hr).2 x hx
    exact ⟨y, hxy, hQ y hy⟩
  · intro h
    obtain ⟨r, hr⟩ := exists_sequence.mpr fun x hx => (h x hx).imp fun y hy => hy.1
    refine ⟨r, hr, fun y hy => ?_⟩
    obtain ⟨x, hx, hxy⟩ := (mem_of_sequence hr).1 y hy
    obtain ⟨y', hxy', hQ⟩ := h x hx
    rw [hxy] at hxy'
    cases hxy'
    exact hQ

theorem sequence_congr {α' β' : Type} {f : α → Except ε β} {g : α' → Except ε β'} {φ : β → β'} {ψ : α → α'}
    {xs : List α} (h : ∀ x ∈ xs, g (ψ x) = φ <$> f x) :
    sequence ((xs.map ψ).map g) = List.map φ <$> sequence (xs.map f) := by
  rw [sequence_map, sequence_map, List.mapM_map]
  induction xs with
  | nil => rfl
  | cons x rest ih =>
    rw [List.mapM_cons, List.mapM_cons, ih fun x hx => h x (List.mem_cons_of_mem _ hx), Function.comp_apply,
      h x List.mem_cons_self]
    cases f x with
    | error e => rfl
    | ok y =>
      cases rest.mapM f with
      | error e => rfl
      | ok ys => rfl

end Fold
