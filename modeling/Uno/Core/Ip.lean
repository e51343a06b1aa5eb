import Uno.Core.Exn
import Mathlib.Algebra.Order.Ring.Nat
import Mathlib.Data.Nat.Digits.Defs
import Mathlib.Data.Nat.ModEq
import Mathlib.Tactic.Ring
import Mathlib.Tactic.NormNum

/-!
# IPv4 addresses and networks

The part of Python's `ipaddress` that uno computes with. An address is a number below `2 ^ 32`, so
that the addition that would leave the address space raises (`IPv4Address.add`). A network carries
the alignment of its address with its prefix length, so that it is the block of
`2 ^ (32 - prefixlen)` addresses that starts there (`IPv4Network.contains_iff`).
-/

namespace Uno

structure IPv4Address where
  toNat : ℕ
  lt : toNat < 2 ^ 32
  deriving DecidableEq

namespace IPv4Address

theorem zero_lt : 0 < 2 ^ 32 := by decide

theorem ext {a b : IPv4Address} (h : a.toNat = b.toNat) : a = b := by
  cases a; cases b; simpa using h

/-- `IPv4Address(value)`. -/
def ofNat (value : ℕ) : Result IPv4Address :=
  if h : value < 2 ^ 32 then .ok ⟨value, h⟩
  else .error (.value "is not permitted as an IPv4 address")

/-- `address + offset`. -/
def add (a : IPv4Address) (offset : ℕ) : Result IPv4Address := ofNat (a.toNat + offset)

theorem ofNat_eq_ok {value : ℕ} (h : value < 2 ^ 32) : ofNat value = .ok ⟨value, h⟩ := by
  rw [ofNat, dif_pos h]

theorem ofNat_eq_error {value : ℕ} (h : 2 ^ 32 ≤ value) :
    ofNat value = .error (.value "is not permitted as an IPv4 address") := by
  rw [ofNat, dif_neg (Nat.not_lt.mpr h)]

end IPv4Address

structure IPv4Network where
  networkAddress : IPv4Address
  prefixlen : ℕ
  le : prefixlen ≤ 32
  aligned : 2 ^ (32 - prefixlen) ∣ networkAddress.toNat
  deriving DecidableEq

namespace IPv4Network

theorem le_24 : 24 ≤ 32 := by decide

theorem lt_10 : 10 * 2 ^ 24 < 2 ^ 32 := by decide

theorem aligned_10_24 : 2 ^ (32 - 24) ∣ 10 * 2 ^ 24 := by decide

/-- The number of addresses of the network. -/
def numAddresses (n : IPv4Network) : ℕ := 2 ^ (32 - n.prefixlen)

theorem numAddresses_pos (n : IPv4Network) : 0 < n.numAddresses := Nat.two_pow_pos _

/-- One past the last address. -/
def stop (n : IPv4Network) : ℕ := n.networkAddress.toNat + n.numAddresses

theorem stop_le (n : IPv4Network) : n.stop ≤ 2 ^ 32 := by
  obtain ⟨k, hk⟩ := n.aligned
  have hsplit : 2 ^ 32 = 2 ^ (32 - n.prefixlen) * 2 ^ n.prefixlen := by
    rw [← pow_add, Nat.sub_add_cancel n.le]
  have hlt := n.networkAddress.lt
  have hk' : k < 2 ^ n.prefixlen := by
    rw [hk, hsplit] at hlt
    exact Nat.lt_of_mul_lt_mul_left hlt
  calc n.stop = 2 ^ (32 - n.prefixlen) * (k + 1) := by rw [stop, numAddresses, hk]; ring
    _ ≤ 2 ^ (32 - n.prefixlen) * 2 ^ n.prefixlen := Nat.mul_le_mul_left _ hk'
    _ = 2 ^ 32 := hsplit.symm

/-- `broadcast_address`, the last address of the network. -/
def broadcastAddress (n : IPv4Network) : IPv4Address :=
  ⟨n.stop - 1, by have := n.stop_le; have := n.numAddresses_pos; rw [stop] at *; omega⟩

/-- `address in network`: clearing the host bits gives the network address. -/
def contains (n : IPv4Network) (a : IPv4Address) : Bool :=
  a.toNat - a.toNat % n.numAddresses = n.networkAddress.toNat

theorem contains_iff (n : IPv4Network) (a : IPv4Address) :
    n.contains a ↔ n.networkAddress.toNat ≤ a.toNat ∧ a.toNat < n.stop := by
  obtain ⟨k, hk⟩ := n.aligned
  rw [contains, stop, decide_eq_true_eq]
  have hdiv := Nat.div_add_mod a.toNat n.numAddresses
  have hmod := Nat.mod_lt a.toNat n.numAddresses_pos
  change n.networkAddress.toNat = n.numAddresses * k at hk
  constructor
  · intro h
    omega
  · rintro ⟨hlow, hhigh⟩
    have hq : a.toNat / n.numAddresses = k := by
      rw [Nat.div_eq_iff n.numAddresses_pos]
      constructor
      · rw [Nat.mul_comm]; omega
      · rw [Nat.mul_comm]; omega
    rw [hq] at hdiv
    omega

/-- `network.overlaps(other)`. -/
def overlaps (n m : IPv4Network) : Bool :=
  n.contains m.networkAddress || n.contains m.broadcastAddress ||
    m.contains n.networkAddress || m.contains n.broadcastAddress

theorem overlaps_iff (n m : IPv4Network) :
    n.overlaps m ↔ n.networkAddress.toNat < m.stop ∧ m.networkAddress.toNat < n.stop := by
  simp only [overlaps, Bool.or_eq_true, contains_iff, broadcastAddress, stop]
  have hn := n.numAddresses_pos
  have hm := m.numAddresses_pos
  omega

theorem overlaps_comm (n m : IPv4Network) : n.overlaps m = m.overlaps n :=
  Bool.eq_iff_iff.mpr (by rw [overlaps_iff, overlaps_iff, and_comm])

theorem overlaps_self (n : IPv4Network) : n.overlaps n := by
  rw [overlaps_iff]
  have := n.numAddresses_pos
  simp only [stop]
  omega

/-- `ip_network(f"{address}/{prefixlen}")`: raises when host bits are set. -/
def ofAddress (a : IPv4Address) (prefixlen : ℕ) (hle : prefixlen ≤ 32) : Result IPv4Network :=
  if h : 2 ^ (32 - prefixlen) ∣ a.toNat then .ok ⟨a, prefixlen, hle, h⟩
  else .error (.value "has host bits set")

/-- `ip_network(f"{address}/{prefixlen}", strict=False)`: clears the host bits. -/
def ofInterface (a : IPv4Address) (prefixlen : ℕ) (hle : prefixlen ≤ 32) : IPv4Network :=
  ⟨⟨a.toNat - a.toNat % 2 ^ (32 - prefixlen), lt_of_le_of_lt (Nat.sub_le _ _) a.lt⟩, prefixlen, hle,
    Nat.dvd_sub_mod _⟩

end IPv4Network

/-! ### Masks -/

/-- The mask of a network as a number. -/
def IPv4Network.netmask (n : IPv4Network) : ℕ := 2 ^ 32 - 2 ^ (32 - n.prefixlen)

/-- `bin(mask)[2:].rindex("1") + 1`; the digits are listed from the last one. -/
def ipv4NetmaskToCidr (mask : ℕ) : Result ℕ :=
  match (Nat.digits 2 mask).idxOf? 1 with
  | some i => .ok ((Nat.digits 2 mask).length - i)
  | none => .error (.value "substring not found")

theorem ipv4NetmaskToCidr_netmask (n : IPv4Network) :
    ipv4NetmaskToCidr n.netmask =
      if n.prefixlen = 0 then .error (.value "substring not found") else .ok n.prefixlen := by
  have hall : ∀ p : Fin 33, ipv4NetmaskToCidr (2 ^ 32 - 2 ^ (32 - p.val)) =
      if p.val = 0 then .error (.value "substring not found") else .ok p.val := by decide
  exact hall ⟨n.prefixlen, Nat.lt_succ_of_le n.le⟩

end Uno
