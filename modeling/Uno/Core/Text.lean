import Uno.Core.Exn
import Mathlib.Data.List.TakeWhile

/-!
# Texts

Numbers in decimal, which are read back as they were written (`pyInt_dec`), and the cut of a text at the first
occurrence of a character.
-/

namespace Uno

/-- `str(n)`. -/
def dec (n : ℕ) : Text := Nat.toDigits 10 n

/-- `int(text)`, for a text of digits. -/
def pyInt (text : Text) : Result ℕ :=
  if text ≠ [] ∧ text.all Char.isDigit then .ok (Nat.ofDigitChars 10 text 0)
  else .error (.value "invalid literal for int() with base 10")

theorem isDigit_of_mem_dec {n : ℕ} {c : Char} (h : c ∈ dec n) : c.isDigit :=
  Nat.isDigit_of_mem_toDigits (by decide) (by decide) h

theorem ne_of_mem_dec {n : ℕ} {c d : Char} (h : c ∈ dec n) (hd : d.isDigit = false) : c ≠ d := by
  rintro rfl
  rw [isDigit_of_mem_dec h] at hd
  cases hd

@[simp] theorem pyInt_dec (n : ℕ) : pyInt (dec n) = .ok n := by
  have hdigits : dec n ≠ [] ∧ (dec n).all Char.isDigit :=
    ⟨Nat.toDigits_ne_nil, List.all_eq_true.mpr fun c hc => isDigit_of_mem_dec hc⟩
  rw [pyInt, if_pos hdigits]
  exact congrArg Except.ok Nat.ofDigitChars_ten_toDigits

theorem dec_injective : Function.Injective dec := by
  intro a b hab
  have hok : (Except.ok a : Result ℕ) = .ok b := by rw [← pyInt_dec a, ← pyInt_dec b, hab]
  exact Except.ok.inj hok

theorem takeWhile_ne_append {start : Text} {c : Char} (rest : Text) (h : ∀ d ∈ start, d ≠ c) :
    (start ++ c :: rest).takeWhile (· ≠ c) = start ∧ (start ++ c :: rest).dropWhile (· ≠ c) = c :: rest := by
  have hstart : ∀ d ∈ start, decide (d ≠ c) = true := fun d hd => decide_eq_true (h d hd)
  constructor
  · rw [List.takeWhile_append_of_pos hstart, List.takeWhile_cons_of_neg (by simp), List.append_nil]
  · rw [List.dropWhile_append_of_pos hstart, List.dropWhile_cons_of_neg (by simp)]

end Uno
