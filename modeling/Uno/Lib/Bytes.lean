import Mathlib.Algebra.Order.Ring.Nat

/-!
# Numbers as bytes

`toBytes` writes a number below `256 ^ length` as that many big-endian bytes, and `ofBytes` reads it back
(`ofBytes_toBytes`).
-/

namespace Bytes

def toBytes : ℕ → ℕ → List UInt8
  | 0, _ => []
  | length + 1, n => toBytes length (n / 256) ++ [UInt8.ofNat n]

def ofBytes (bytes : List UInt8) : ℕ := bytes.foldl (fun n b => n * 256 + b.toNat) 0

theorem ofBytes_append (bytes : List UInt8) (b : UInt8) : ofBytes (bytes ++ [b]) = ofBytes bytes * 256 + b.toNat := by
  unfold ofBytes
  rw [List.foldl_append]
  rfl

theorem ofBytes_toBytes {length n : ℕ} (h : n < 256 ^ length) : ofBytes (toBytes length n) = n := by
  induction length generalizing n with
  | zero =>
    have hn : n = 0 := Nat.lt_one_iff.mp h
    rw [hn]
    rfl
  | succ length ih =>
    have hdiv : n / 256 < 256 ^ length := Nat.div_lt_of_lt_mul (by rwa [pow_succ, Nat.mul_comm] at h)
    rw [toBytes, ofBytes_append, ih hdiv, UInt8.toNat_ofNat']
    omega

end Bytes
