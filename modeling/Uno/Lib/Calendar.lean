import Mathlib.Data.Nat.Notation
import Mathlib.Tactic.IntervalCases
import Mathlib.Tactic.Common

/-!
# The proleptic Gregorian calendar

The day number of a date counts the days from the first day of year 1. A later date has a larger day number
(`ordinal_lt`): the days of a year before a date stay within the year, and the years follow each other.
-/

namespace Calendar

def isLeap (year : ℕ) : Bool := year % 4 = 0 ∧ (year % 100 ≠ 0 ∨ year % 400 = 0)

def daysInMonth (year month : ℕ) : ℕ :=
  if month = 2 then (if isLeap year then 29 else 28)
  else if month ∈ [4, 6, 9, 11] then 30
  else 31

/-- The days of a year before a month. -/
def daysBeforeMonth (year : ℕ) : ℕ → ℕ
  | 0 => 0
  | 1 => 0
  | m + 2 => daysBeforeMonth year (m + 1) + daysInMonth year (m + 1)

/-- The days before a year. -/
def daysBeforeYear (year : ℕ) : ℕ :=
  (year - 1) * 365 + (year - 1) / 4 - (year - 1) / 100 + (year - 1) / 400

def daysInYear (year : ℕ) : ℕ := if isLeap year then 366 else 365

/-- The number of a date. -/
def ordinal (year month day : ℕ) : ℕ := daysBeforeYear year + daysBeforeMonth year month + day

/-- A month and a day of a year. -/
def IsDate (year month day : ℕ) : Prop :=
  1 ≤ year ∧ 1 ≤ month ∧ month ≤ 12 ∧ 1 ≤ day ∧ day ≤ daysInMonth year month

instance (year month day : ℕ) : Decidable (IsDate year month day) := inferInstanceAs (Decidable (_ ∧ _))

variable {year year' month month' day day' : ℕ}

theorem daysInMonth_le (year month : ℕ) : daysInMonth year month ≤ 31 := by
  unfold daysInMonth
  split_ifs <;> decide

theorem isLeap_iff : isLeap year = true ↔ 4 ∣ year ∧ (¬ 100 ∣ year ∨ 400 ∣ year) := by
  rw [isLeap, decide_eq_true_eq, Nat.dvd_iff_mod_eq_zero, Nat.dvd_iff_mod_eq_zero, Nat.dvd_iff_mod_eq_zero]

theorem daysBeforeYear_succ (h : 1 ≤ year) : daysBeforeYear (year + 1) = daysBeforeYear year + daysInYear year := by
  obtain ⟨k, rfl⟩ := Nat.exists_eq_add_of_le' h
  have hcenturies : k / 100 ≤ k / 4 := Nat.div_le_div_left (by decide) (by decide)
  have h4 : 100 ∣ k + 1 → 4 ∣ k + 1 := Nat.dvd_trans (by decide)
  have h100 : 400 ∣ k + 1 → 100 ∣ k + 1 := Nat.dvd_trans (by decide)
  show (k + 1) * 365 + (k + 1) / 4 - (k + 1) / 100 + (k + 1) / 400 =
    k * 365 + k / 4 - k / 100 + k / 400 + daysInYear (k + 1)
  rw [Nat.succ_div, Nat.succ_div, Nat.succ_div, daysInYear]
  generalize k / 4 = q at *
  generalize k / 100 = c at *
  generalize k / 400 = e
  by_cases h400 : 400 ∣ k + 1
  · rw [if_pos (h4 (h100 h400)), if_pos (h100 h400), if_pos h400,
      if_pos (isLeap_iff.mpr ⟨h4 (h100 h400), .inr h400⟩)]
    omega
  · by_cases hcentury : 100 ∣ k + 1
    · rw [if_pos (h4 hcentury), if_pos hcentury, if_neg h400,
        if_neg fun hleap => (isLeap_iff.mp hleap).2.elim (absurd hcentury) h400]
      omega
    · rw [if_neg hcentury, if_neg h400]
      by_cases hfour : 4 ∣ k + 1
      · rw [if_pos hfour, if_pos (isLeap_iff.mpr ⟨hfour, .inl hcentury⟩)]
        omega
      · rw [if_neg hfour, if_neg fun hleap => hfour (isLeap_iff.mp hleap).1]
        omega

theorem daysBeforeYear_le (h : 1 ≤ year) (hlt : year < year') :
    daysBeforeYear year + daysInYear year ≤ daysBeforeYear year' := by
  induction year', hlt using Nat.le_induction with
  | base => rw [daysBeforeYear_succ h]
  | succ n hn ih =>
    rw [daysBeforeYear_succ (by omega)]
    omega

theorem daysBeforeMonth_succ (h : 1 ≤ month) :
    daysBeforeMonth year (month + 1) = daysBeforeMonth year month + daysInMonth year month := by
  obtain ⟨k, rfl⟩ := Nat.exists_eq_add_of_le' h
  rfl

theorem daysBeforeMonth_le (year : ℕ) (h : 1 ≤ month) (hlt : month < month') :
    daysBeforeMonth year month + daysInMonth year month ≤ daysBeforeMonth year month' := by
  induction month', hlt using Nat.le_induction with
  | base => rw [daysBeforeMonth_succ h]
  | succ n hn ih =>
    rw [daysBeforeMonth_succ (by omega)]
    omega

theorem daysBeforeMonth_thirteen (year : ℕ) : daysBeforeMonth year 13 = daysInYear year := by
  simp only [daysBeforeMonth, daysInMonth, daysInYear]
  cases isLeap year <;> rfl

theorem ordinal_le (h : IsDate year month day) : ordinal year month day ≤ daysBeforeYear year + daysInYear year := by
  obtain ⟨-, hmonth, hmonth', -, hday⟩ := h
  have hyear := daysBeforeMonth_le year hmonth (Nat.lt_succ_of_le hmonth')
  rw [daysBeforeMonth_thirteen] at hyear
  unfold ordinal
  omega

theorem ordinal_lt (h : IsDate year month day) (h' : IsDate year' month' day')
    (hlt : year < year' ∨ year = year' ∧ (month < month' ∨ month = month' ∧ day < day')) :
    ordinal year month day < ordinal year' month' day' := by
  rcases hlt with hyear | ⟨rfl, hmonth | ⟨rfl, hday⟩⟩
  · have hle := ordinal_le h
    have hyears := daysBeforeYear_le h.1 hyear
    have hpos := h'.2.2.2.1
    unfold ordinal at *
    omega
  · have hmonths := daysBeforeMonth_le year h.2.1 hmonth
    have hday := h.2.2.2.2
    have hpos := h'.2.2.2.1
    unfold ordinal
    omega
  · unfold ordinal
    omega

end Calendar
