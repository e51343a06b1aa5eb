import Mathlib.Algebra.Group.Nat.Defs
import Mathlib.Data.List.Lex
import Mathlib.Data.Nat.Notation
import Mathlib.Tactic.Common

/-!
# Decimal texts of a fixed width

`fixedDigits w n` is the text of the last `w` decimal digits of `n`. Numbers that fit are read back from it
(`ofDigitChars_fixedDigits`), and the order of the texts, followed by other texts, is the order of the numbers
(`fixedDigits_append_lt_iff`).
-/

/-- The last `w` decimal digits, the most significant one first. -/
def fixedDigits : ℕ → ℕ → List Char
  | 0, _ => []
  | w + 1, n => fixedDigits w (n / 10) ++ [Nat.digitChar (n % 10)]

@[simp] theorem length_fixedDigits (w n : ℕ) : (fixedDigits w n).length = w := by
  induction w generalizing n with
  | zero => rfl
  | succ w ih => rw [fixedDigits, List.length_append, ih, List.length_singleton]

theorem isDigit_of_mem_fixedDigits {w n : ℕ} {c : Char} (h : c ∈ fixedDigits w n) : c.isDigit = true := by
  have hchar : ∀ d : Fin 10, (Nat.digitChar d).isDigit = true := by decide
  induction w generalizing n with
  | zero => cases h
  | succ w ih =>
    rcases List.mem_append.mp h with hmem | hmem
    · exact ih hmem
    · rw [List.mem_singleton.mp hmem]
      exact hchar ⟨n % 10, Nat.mod_lt _ (by decide)⟩

theorem ofDigitChars_fixedDigits {w n : ℕ} (h : n < 10 ^ w) : Nat.ofDigitChars 10 (fixedDigits w n) 0 = n := by
  induction w generalizing n with
  | zero =>
    obtain rfl : n = 0 := by simpa using h
    rfl
  | succ w ih =>
    have hdiv : n / 10 < 10 ^ w := by
      rw [Nat.pow_succ] at h
      omega
    rw [fixedDigits, Nat.ofDigitChars_append, ih hdiv, Nat.ofDigitChars_cons_digitChar_of_lt_ten (Nat.mod_lt _ (by decide)),
      Nat.ofDigitChars_nil]
    omega

theorem fixedDigits_inj {w n m : ℕ} (hn : n < 10 ^ w) (hm : m < 10 ^ w) :
    fixedDigits w n = fixedDigits w m ↔ n = m := by
  constructor
  · intro h
    rw [← ofDigitChars_fixedDigits hn, h, ofDigitChars_fixedDigits hm]
  · rintro rfl
    rfl

theorem toDigits_eq_fixedDigits {w n : ℕ} (hlow : 10 ^ w ≤ n) (hhigh : n < 10 ^ (w + 1)) :
    Nat.toDigits 10 n = fixedDigits (w + 1) n := by
  induction w generalizing n with
  | zero =>
    have hn : n < 10 := by simpa using hhigh
    rw [Nat.toDigits_of_lt_base hn, fixedDigits, fixedDigits, Nat.mod_eq_of_lt hn]
    rfl
  | succ w ih =>
    rw [Nat.pow_succ] at hlow hhigh
    have hpos := Nat.one_le_pow w 10 (by decide)
    rw [Nat.toDigits_of_base_le (by decide) (by omega), ih (by omega) (by omega), fixedDigits]
    rfl

/-! ### Order -/

theorem append_lt_append_iff {x y u v : List Char} (h : x.length = y.length) :
    x ++ u < y ++ v ↔ x < y ∨ x = y ∧ u < v := by
  induction x generalizing y with
  | nil =>
    obtain rfl : y = [] := List.eq_nil_of_length_eq_zero h.symm
    simp
  | cons a x ih =>
    cases y with
    | nil => cases h
    | cons b y =>
      rw [List.cons_append, List.cons_append, List.cons_lt_cons_iff, List.cons_lt_cons_iff,
        ih (Nat.succ.inj h), List.cons.injEq]
      tauto

theorem digitChar_lt_iff {a b : ℕ} (ha : a < 10) (hb : b < 10) : Nat.digitChar a < Nat.digitChar b ↔ a < b := by
  have hall : ∀ a b : Fin 10, Nat.digitChar a < Nat.digitChar b ↔ a.val < b.val := by decide
  exact hall ⟨a, ha⟩ ⟨b, hb⟩

theorem fixedDigits_lt_iff {w n m : ℕ} (hn : n < 10 ^ w) (hm : m < 10 ^ w) :
    fixedDigits w n < fixedDigits w m ↔ n < m := by
  induction w generalizing n m with
  | zero =>
    obtain rfl : n = 0 := by simpa using hn
    obtain rfl : m = 0 := by simpa using hm
    simp
  | succ w ih =>
    have hn' : n / 10 < 10 ^ w := by
      rw [Nat.pow_succ] at hn
      omega
    have hm' : m / 10 < 10 ^ w := by
      rw [Nat.pow_succ] at hm
      omega
    rw [fixedDigits, fixedDigits, append_lt_append_iff (by simp), ih hn' hm', fixedDigits_inj hn' hm',
      List.cons_lt_cons_iff, digitChar_lt_iff (Nat.mod_lt _ (by decide)) (Nat.mod_lt _ (by decide))]
    simp only [List.not_lt_nil, and_false, or_false]
    omega

/-- Texts that start with two numbers of one width are ordered as the numbers, and then as their rests. -/
theorem fixedDigits_append_lt_iff {w n m : ℕ} (hn : n < 10 ^ w) (hm : m < 10 ^ w) (u v : List Char) :
    fixedDigits w n ++ u < fixedDigits w m ++ v ↔ n < m ∨ n = m ∧ u < v := by
  rw [append_lt_append_iff (by simp), fixedDigits_lt_iff hn hm, fixedDigits_inj hn hm]
