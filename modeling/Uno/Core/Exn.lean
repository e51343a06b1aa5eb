import Mathlib.Data.Nat.Notation

/-!
# Exceptions

The Python exceptions the modelled code raises or lets through. A function that may raise returns
`Except Exn`.
-/

namespace Uno

inductive Exn where
  /-- `ValueError`, `AddressValueError` included. -/
  | value (message : String)
  | runtime (message : String)
  | type (message : String)
  | attribute (name : String)
  /-- `UnboundLocalError`. -/
  | unboundLocal (name : String)
  | key (id : ℕ)
  | index
  | assertion
  | stopIteration
  /-- `sqlite3.IntegrityError`: a row write violates a constraint of its table. -/
  | integrity
  /-- `MissingKeyMaterial`. -/
  | missingKeyMaterial
  /-- `ClashingNetworksError`. -/
  | clashingNetworks
  deriving DecidableEq, Repr

/-- A key that is looked up is missing. -/
def Exn.IsKeyError (e : Exn) : Prop := e = .missingKeyMaterial ∨ ∃ id, e = .key id

abbrev Result := Except Exn

/-- A string, where its characters matter. -/
abbrev Text := List Char

/-- `assert condition`. -/
def pyAssert (condition : Bool) : Result Unit :=
  if condition then .ok () else .error .assertion

@[simp] theorem pyAssert_true : pyAssert true = .ok () := rfl

/-- Subscript of a sequence by a natural number. -/
def pyIndex {α : Type*} (l : List α) (i : ℕ) : Result α :=
  match l[i]? with
  | some v => .ok v
  | none => .error .index

theorem pyIndex_eq_ok {α : Type*} {l : List α} {i : ℕ} {v : α} (h : l[i]? = some v) :
    pyIndex l i = .ok v := by
  simp [pyIndex, h]

/-- `if address`. -/
def truthy (address : Option String) : Bool := address ≠ none ∧ address ≠ some ""

end Uno
