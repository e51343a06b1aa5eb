import Mathlib.Data.List.Basic
import Mathlib.Tactic.Common
import Mathlib.Tactic.SplitIfs

/-!
# Splitting at a doubled separator

A list is split at each occurrence of a separator that stands twice, from left to right and without overlaps. It
has exactly two pieces when it joins two lists neither of which brings a doubled separator, the first one not even
together with the separator after it (`splitDouble_eq_pair_iff`). Two joins are the same list only when one of the
first pieces goes on where the other one ends (`append_double_inj`).
-/

/-! ### Joins -/

section joins
variable {α : Type*} {s : α}

/-- The separator stands twice in the list. -/
def HasDouble (s : α) : List α → Prop
  | c :: d :: rest => c = s ∧ d = s ∨ HasDouble s (d :: rest)
  | _ => False

theorem hasDouble_iff {l : List α} : HasDouble s l ↔ ∃ p q, l = p ++ s :: s :: q := by
  fun_induction HasDouble s l with
  | case1 c d rest ih =>
    rw [ih]
    constructor
    · rintro (⟨rfl, rfl⟩ | ⟨p, q, hpq⟩)
      · exact ⟨[], rest, rfl⟩
      · exact ⟨c :: p, q, by rw [hpq, List.cons_append]⟩
    · rintro ⟨p, q, hpq⟩
      cases p with
      | nil =>
        simp only [List.nil_append, List.cons.injEq] at hpq
        exact .inl ⟨hpq.1, hpq.2.1⟩
      | cons a p =>
        simp only [List.cons_append, List.cons.injEq] at hpq
        exact .inr ⟨p, q, hpq.2⟩
  | case2 l hshort =>
    refine iff_of_false id ?_
    rintro ⟨p, q, rfl⟩
    rcases p with _ | ⟨a, _ | ⟨b, p⟩⟩
    · exact hshort s s q rfl
    · exact hshort a s (s :: q) rfl
    · exact hshort a b (p ++ s :: s :: q) rfl

/-- The first of `p` and `p'` ends before the other, so that the separator falls into `p'`: with one element in
`p'` or with both. -/
def Overlaps (s : α) (p c p' c' : List α) : Prop :=
  p' = p ++ [s] ∧ c = s :: c' ∨ ∃ m, p' = p ++ s :: s :: m ∧ c = m ++ s :: s :: c'

theorem append_double_of_overlaps {p c p' c' : List α} (h : Overlaps s p c p' c') :
    p ++ s :: s :: c = p' ++ s :: s :: c' := by
  obtain ⟨rfl, rfl⟩ | ⟨m, rfl, rfl⟩ := h
  · simp
  · simp

theorem overlaps_of_append {p c c' m : List α} (h : s :: s :: c = m ++ s :: s :: c') :
    m = [] ∧ c = c' ∨ Overlaps s p c (p ++ m) c' := by
  rcases m with _ | ⟨a, _ | ⟨b, m⟩⟩
  · simp only [List.nil_append, List.cons.injEq, true_and] at h
    exact .inl ⟨rfl, h⟩
  · simp only [List.cons_append, List.nil_append, List.cons.injEq, true_and] at h
    exact .inr (.inl ⟨by rw [h.1], h.2⟩)
  · simp only [List.cons_append, List.cons.injEq] at h
    exact .inr (.inr ⟨m, by rw [← h.1, ← h.2.1], h.2.2⟩)

/-- Two joins are the same list only when their pieces are, or when one overlaps the other. -/
theorem append_double_inj {p c p' c' : List α} :
    p ++ s :: s :: c = p' ++ s :: s :: c' ↔
      p = p' ∧ c = c' ∨ Overlaps s p c p' c' ∨ Overlaps s p' c' p c := by
  constructor
  · intro h
    obtain ⟨m, rfl, hm⟩ | ⟨m, rfl, hm⟩ := List.append_eq_append_iff.mp h
    · obtain ⟨rfl, rfl⟩ | hover := overlaps_of_append (p := p) hm
      · exact .inl ⟨(List.append_nil p).symm, rfl⟩
      · exact .inr (.inl hover)
    · obtain ⟨rfl, rfl⟩ | hover := overlaps_of_append (p := p') hm
      · exact .inl ⟨List.append_nil p', rfl⟩
      · exact .inr (.inr hover)
  · rintro (⟨rfl, rfl⟩ | h | h)
    · rfl
    · exact append_double_of_overlaps h
    · exact (append_double_of_overlaps h).symm

end joins

/-! ### Splitting -/

section split
variable {α : Type*} [DecidableEq α] {s : α}

/-- `text.split(separator)`, for the separator of two elements `s`. -/
def splitDouble (s : α) : List α → List (List α)
  | [] => [[]]
  | [c] => [[c]]
  | c :: d :: rest =>
    if c = s ∧ d = s then [] :: splitDouble s rest
    else match splitDouble s (d :: rest) with
      | [] => [[c]]
      | piece :: pieces => (c :: piece) :: pieces

instance decidableHasDouble (s : α) : DecidablePred (HasDouble s)
  | [] => isFalse id
  | [_] => isFalse id
  | c :: d :: rest =>
    have := decidableHasDouble s (d :: rest)
    inferInstanceAs (Decidable (c = s ∧ d = s ∨ HasDouble s (d :: rest)))

theorem splitDouble_ne_nil (l : List α) : splitDouble s l ≠ [] := by
  fun_cases splitDouble s l with
  | case1 => exact List.cons_ne_nil _ _
  | case2 c => exact List.cons_ne_nil _ _
  | case3 d rest h => exact List.cons_ne_nil _ _
  | case4 c d rest h => exact List.cons_ne_nil _ _
  | case5 c d rest h piece pieces => exact List.cons_ne_nil _ _

theorem splitDouble_cons_eq_iff {c d : α} {rest x : List α} {pieces : List (List α)} (h : ¬(c = s ∧ d = s)) :
    splitDouble s (c :: d :: rest) = x :: pieces ↔
      ∃ piece, x = c :: piece ∧ splitDouble s (d :: rest) = piece :: pieces := by
  rw [splitDouble, if_neg h]
  cases hrest : splitDouble s (d :: rest) with
  | nil => exact absurd hrest (splitDouble_ne_nil _)
  | cons piece others =>
    simp only [List.cons.injEq]
    constructor
    · rintro ⟨rfl, rfl⟩
      exact ⟨piece, rfl, rfl, rfl⟩
    · rintro ⟨_, rfl, rfl, rfl⟩
      exact ⟨rfl, rfl⟩

theorem splitDouble_eq_single_iff {l x : List α} : splitDouble s l = [x] ↔ l = x ∧ ¬HasDouble s l := by
  induction l generalizing x with
  | nil => simp [splitDouble, HasDouble]
  | cons c l ih =>
    cases l with
    | nil => simp [splitDouble, HasDouble]
    | cons d rest =>
      by_cases hdouble : c = s ∧ d = s
      · refine iff_of_false ?_ fun h => h.2 (.inl hdouble)
        rw [splitDouble, if_pos hdouble]
        simp [splitDouble_ne_nil]
      · rw [splitDouble_cons_eq_iff hdouble]
        simp only [ih, HasDouble, hdouble, false_or]
        constructor
        · rintro ⟨piece, rfl, rfl, hnot⟩
          exact ⟨rfl, hnot⟩
        · rintro ⟨rfl, hnot⟩
          exact ⟨d :: rest, rfl, rfl, hnot⟩

/-- A list has two pieces when the separator joins them and occurs nowhere else, not even across the first joint. -/
theorem splitDouble_eq_pair_iff {l x y : List α} :
    splitDouble s l = [x, y] ↔ l = x ++ s :: s :: y ∧ ¬HasDouble s (x ++ [s]) ∧ ¬HasDouble s y := by
  induction l generalizing x with
  | nil => simp [splitDouble]
  | cons c l ih =>
    cases l with
    | nil =>
      refine iff_of_false (by simp [splitDouble]) ?_
      rintro ⟨hl, -⟩
      have := congrArg List.length hl
      simp only [List.length_cons, List.length_nil, List.length_append] at this
      omega
    | cons d rest =>
      by_cases hdouble : c = s ∧ d = s
      · obtain ⟨rfl, rfl⟩ := hdouble
        rw [splitDouble, if_pos ⟨rfl, rfl⟩, List.cons.injEq, splitDouble_eq_single_iff]
        constructor
        · rintro ⟨rfl, rfl, hnot⟩
          exact ⟨rfl, by simp [HasDouble], hnot⟩
        · rintro ⟨hl, hx, hy⟩
          rcases x with _ | ⟨a, _ | ⟨b, x⟩⟩
          · simp only [List.nil_append, List.cons.injEq, true_and] at hl
            exact ⟨rfl, hl, hl ▸ hy⟩
          · simp only [List.cons_append, List.nil_append, List.cons.injEq] at hl
            exact absurd (.inl ⟨hl.1.symm, rfl⟩) hx
          · simp only [List.cons_append, List.cons.injEq] at hl
            exact absurd (.inl ⟨hl.1.symm, hl.2.1.symm⟩) hx
      · rw [splitDouble_cons_eq_iff hdouble]
        simp only [ih]
        constructor
        · rintro ⟨piece, rfl, hl, hpiece, hy⟩
          refine ⟨by rw [hl, List.cons_append], ?_, hy⟩
          cases piece with
          | nil =>
            simp only [List.nil_append, List.cons.injEq] at hl
            exact fun h => h.elim (fun h => hdouble ⟨h.1, hl.1⟩) hpiece
          | cons b piece =>
            simp only [List.cons_append, List.cons.injEq] at hl
            exact fun h => h.elim (fun h => hdouble ⟨h.1, hl.1.trans h.2⟩) hpiece
        · rintro ⟨hl, hx, hy⟩
          cases x with
          | nil =>
            simp only [List.nil_append, List.cons.injEq] at hl
            exact absurd ⟨hl.1, hl.2.1⟩ hdouble
          | cons a x =>
            simp only [List.cons_append, List.cons.injEq] at hl
            refine ⟨x, by rw [hl.1], hl.2, fun h => hx ?_, hy⟩
            cases x with
            | nil => exact .inr h
            | cons b x => exact .inr h

end split
