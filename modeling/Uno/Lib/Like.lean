import Mathlib.Data.List.Infix
import Mathlib.Data.List.Basic

/-!
# SQL patterns

`like pattern text`, the operator `LIKE` of SQLite on texts as lists of characters: `%` stands for any
text, `_` for any character, and other characters match regardless of the case of ASCII letters. A
pattern that ends in `%` and has no other wildcard matches the texts that start with it up to case
(`like_literal_iff`).
-/

/-- `pattern LIKE text`. -/
def like : List Char → List Char → Bool
  | [], text => text.isEmpty
  | c :: pattern, text =>
    if c = '%' then text.tails.any (like pattern)
    else match text with
      | [] => false
      | d :: rest => (c = '_' || c.toLower = d.toLower) && like pattern rest

namespace Like

/-- No character stands for others. -/
def Literal (pattern : List Char) : Prop := '%' ∉ pattern ∧ '_' ∉ pattern

instance (pattern : List Char) : Decidable (Literal pattern) := inferInstanceAs (Decidable (_ ∧ _))

variable {pattern text rest : List Char} {c d : Char}

@[simp] theorem like_nil_iff : like [] text ↔ text = [] := List.isEmpty_iff

theorem like_cons (c : Char) (pattern text : List Char) :
    like (c :: pattern) text = if c = '%' then text.tails.any (like pattern)
      else match text with
        | [] => false
        | d :: rest => (c = '_' || c.toLower = d.toLower) && like pattern rest := rfl

theorem like_percent_iff : like ('%' :: pattern) text ↔ ∃ rest, rest <:+ text ∧ like pattern rest := by
  rw [like_cons, if_pos rfl, List.any_eq_true]
  simp only [List.mem_tails]

theorem like_cons_iff (hc : c ≠ '%') :
    like (c :: pattern) text ↔ ∃ d rest, text = d :: rest ∧ (c = '_' ∨ c.toLower = d.toLower) ∧ like pattern rest := by
  rw [like_cons, if_neg hc]
  cases text with
  | nil => simp
  | cons d rest => simp

theorem like_percent_all : like ['%'] text := by
  rw [like_percent_iff]
  exact ⟨[], List.nil_suffix, by simp⟩

theorem like_append_iff {p q : List Char} :
    like (p ++ q) text ↔ ∃ start rest, text = start ++ rest ∧ like p start ∧ like q rest := by
  induction p generalizing text with
  | nil => simp
  | cons c p ih =>
    rw [List.cons_append]
    by_cases hc : c = '%'
    · subst hc
      simp only [like_percent_iff, ih]
      constructor
      · rintro ⟨_, ⟨skipped, rfl⟩, start, rest, rfl, hp, hq⟩
        exact ⟨skipped ++ start, rest, by rw [List.append_assoc], ⟨start, List.suffix_append _ _, hp⟩, hq⟩
      · rintro ⟨_, rest, rfl, ⟨start, ⟨skipped, rfl⟩, hp⟩, hq⟩
        exact ⟨start ++ rest, ⟨skipped, by rw [List.append_assoc]⟩, start, rest, rfl, hp, hq⟩
    · simp only [like_cons_iff hc, ih]
      constructor
      · rintro ⟨d, _, rfl, hcd, start, rest, rfl, hp, hq⟩
        exact ⟨d :: start, rest, rfl, ⟨d, start, rfl, hcd, hp⟩, hq⟩
      · rintro ⟨_, rest, rfl, ⟨d, start, rfl, hcd, hp⟩, hq⟩
        exact ⟨d, start ++ rest, rfl, hcd, start, rest, rfl, hp, hq⟩

theorem like_append_percent (pattern text : List Char) : like (pattern ++ ['%']) (pattern ++ text) := by
  induction pattern with
  | nil => exact like_percent_all
  | cons c pattern ih =>
    by_cases hc : c = '%'
    · subst hc
      exact like_percent_iff.mpr ⟨pattern ++ text, List.suffix_cons _ _, ih⟩
    · exact (like_cons_iff hc).mpr ⟨c, pattern ++ text, rfl, .inr rfl, ih⟩

theorem like_iff_of_literal (h : Literal pattern) :
    like pattern text ↔ text.map Char.toLower = pattern.map Char.toLower := by
  induction pattern generalizing text with
  | nil => simp
  | cons c pattern ih =>
    obtain ⟨hpercent, hunder⟩ := h
    rw [List.mem_cons, not_or] at hpercent hunder
    rw [like_cons_iff (Ne.symm hpercent.1)]
    constructor
    · rintro ⟨d, rest, rfl, hcd, hrest⟩
      rw [List.map_cons, List.map_cons, (ih ⟨hpercent.2, hunder.2⟩).mp hrest,
        hcd.resolve_left (Ne.symm hunder.1)]
    · intro htext
      cases text with
      | nil => cases htext
      | cons d rest =>
        obtain ⟨hdc, hrest⟩ := List.cons.inj htext
        exact ⟨d, rest, rfl, .inr hdc.symm, (ih ⟨hpercent.2, hunder.2⟩).mpr hrest⟩

theorem like_literal_iff (h : Literal pattern) :
    like (pattern ++ ['%']) text ↔
      ∃ start rest, text = start ++ rest ∧ start.map Char.toLower = pattern.map Char.toLower := by
  simp only [like_append_iff, like_iff_of_literal h, like_percent_all, and_true]

theorem not_wildcard_of_toLower {e : Char} (h : c.toLower = e.toLower) (hpercent : c ≠ '%') (hunder : c ≠ '_')
    (hlower : c.toLower = c) : e ≠ '%' ∧ e ≠ '_' := by
  constructor
  · rintro rfl
    exact hpercent (hlower.symm.trans h)
  · rintro rfl
    exact hunder (hlower.symm.trans h)

/-- A text never matches a pattern that starts with it and goes on with a character of its own. -/
theorem not_like_append (hpercent : c ≠ '%') (hunder : c ≠ '_') (hlower : c.toLower = c) {d : Char}
    (hd : c.toLower = d.toLower) : ¬ like (text ++ d :: rest) text := by
  -- what the rest of the pattern matches is itself a part of the text, which is then longer
  induction hlen : text.length using Nat.strong_induction_on generalizing text rest d with
  | _ n ih =>
    intro hlike
    obtain ⟨start, tail, htext, hstart, htail⟩ := like_append_iff.mp hlike
    have hliteral := not_wildcard_of_toLower hd hpercent hunder hlower
    obtain ⟨e, tail, rfl, hde, -⟩ := (like_cons_iff hliteral.1).mp htail
    rw [htext] at hstart hlen
    refine ih start.length (by rw [← hlen]; simp) (hd.trans (hde.resolve_left hliteral.2)) rfl hstart

end Like
