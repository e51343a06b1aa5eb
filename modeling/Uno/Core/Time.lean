import Mathlib.Algebra.Group.Nat.Defs
import Mathlib.Data.Nat.Notation

/-!
# Timestamps

A moment in UTC, in microseconds since the epoch. Timestamps are compared by their time of day alone, so
that two moments a day apart count as equal (`Timestamp.sameTime`).
-/

namespace Uno

structure Timestamp where
  micros : ℕ
  deriving DecidableEq

namespace Timestamp

def microsPerSecond : ℕ := 10 ^ 6

def microsPerDay : ℕ := 24 * 60 * 60 * microsPerSecond

/-- `timetz()`. -/
def timeOfDay (t : Timestamp) : ℕ := t.micros % microsPerDay

/-- `__eq__`. -/
def sameTime (t u : Timestamp) : Bool := t.timeOfDay = u.timeOfDay

/-- `from_epoch()`: whole seconds. -/
def fromEpoch (t : Timestamp) : ℕ := t.micros / microsPerSecond

/-- `parse(seconds)` and `unix(seconds)`. -/
def parse (seconds : ℕ) : Timestamp := ⟨seconds * microsPerSecond⟩

@[simp] theorem fromEpoch_parse (seconds : ℕ) : (parse seconds).fromEpoch = seconds :=
  Nat.mul_div_cancel seconds (by decide)

end Timestamp

end Uno
