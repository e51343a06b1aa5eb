import Uno.Core.Ip
import Mathlib.Algebra.Order.Ring.Star
import Mathlib.Algebra.Order.Star.Basic
import Mathlib.Data.Nat.Bitwise
import Mathlib.Data.Nat.Digits.Lemmas
import Mathlib.Logic.ExistsUnique

/-!
# Netmasks and interface networks

`ipv4NetmaskToCidr` reads the distance between the first and the last one-bit of a mask, so that it is right
on the contiguous masks other than zero and on no other (`ipv4_masks_iff`). `ipv4NicNetwork` clears the host
bits of an address.
-/

namespace Uno

/-- The mask is `p` one-bits followed by `32 - p` zero-bits. -/
def IsNetmask (mask p : ℕ) : Prop :=
  p ≤ 32 ∧ mask < 2 ^ 32 ∧ ∀ i < 32, mask.testBit i = decide (32 - p ≤ i)

/-- The netmask argument of `ipv4_nic_network`: an `int`, or an address. -/
inductive NicNetmask where
  | size (n : ℕ)
  | mask (m : IPv4Address)
  deriving DecidableEq

/-- `mask_size`. -/
def NicNetmask.maskSize : NicNetmask → Result ℕ
  | .size n => .ok n
  | .mask m => ipv4NetmaskToCidr m.toNat

/-- `ipv4_nic_network(nic_addr, nic_netmask)`. -/
def ipv4NicNetwork (nicAddr : IPv4Address) (nicNetmask : NicNetmask) : Result IPv4Network := do
  let maskSize ← nicNetmask.maskSize
  let ipInt := if maskSize < 32 then nicAddr.toNat - (nicAddr.toNat &&& ((1 <<< (32 - maskSize)) - 1))
    else nicAddr.toNat
  let ipNetAddr ← IPv4Address.ofNat ipInt
  if h : maskSize ≤ 32 then IPv4Network.ofAddress ipNetAddr maskSize h
  else .error (.value "is not a valid netmask")

/-! ### Contiguous masks -/

section masks
variable {mask p q : ℕ}

theorem isNetmask_iff : IsNetmask mask p ↔ p ≤ 32 ∧ mask = 2 ^ 32 - 2 ^ (32 - p) := by
  have hbits : ∀ i < 32, (2 ^ 32 - 2 ^ (32 - p)).testBit i = decide (32 - p ≤ i) := by
    intro i hi
    have hle : 2 ^ (32 - p) - 1 < 2 ^ 32 :=
      lt_of_lt_of_le (Nat.sub_lt (Nat.two_pow_pos _) Nat.one_pos) (Nat.pow_le_pow_right (by omega) (by omega))
    have hsub : 2 ^ 32 - 2 ^ (32 - p) = 2 ^ 32 - (2 ^ (32 - p) - 1 + 1) := by
      rw [Nat.sub_add_cancel (Nat.two_pow_pos _)]
    rw [hsub, Nat.testBit_two_pow_sub_succ hle, Nat.testBit_two_pow_sub_one]
    by_cases hlt : i < 32 - p
    · simp only [hlt, hi, decide_true, Bool.not_true, Bool.and_false]
      exact (decide_eq_false (Nat.not_le.mpr hlt)).symm
    · simp [hlt, hi, Nat.not_lt.mp hlt]
  constructor
  · intro ⟨hp, hlt, htest⟩
    refine ⟨hp, Nat.eq_of_testBit_eq fun i => ?_⟩
    by_cases hi : i < 32
    · rw [htest i hi, hbits i hi]
    · have hpow : 2 ^ 32 ≤ 2 ^ i := Nat.pow_le_pow_right (by omega) (Nat.not_lt.mp hi)
      have hpos := Nat.two_pow_pos (32 - p)
      rw [Nat.testBit_lt_two_pow (by omega), Nat.testBit_lt_two_pow (by omega)]
  · intro ⟨hp, hmask⟩
    subst hmask
    exact ⟨hp, Nat.sub_lt (by norm_num) (Nat.two_pow_pos _), hbits⟩

theorem IsNetmask.unique (h : IsNetmask mask p) (h' : IsNetmask mask q) : p = q := by
  obtain ⟨hp, hmask⟩ := isNetmask_iff.mp h
  obtain ⟨hq, hmask'⟩ := isNetmask_iff.mp h'
  have hpow : ∀ k, k ≤ 32 → 2 ^ (32 - k) ≤ 2 ^ 32 := fun k _ => Nat.pow_le_pow_right (by omega) (by omega)
  have heq : 2 ^ (32 - p) = 2 ^ (32 - q) := by
    have hp' := hpow p hp
    have hq' := hpow q hq
    omega
  have hexp := Nat.pow_right_injective (le_refl 2) heq
  omega

theorem isNetmask_zero : IsNetmask 0 0 := isNetmask_iff.mpr ⟨by omega, by norm_num⟩

theorem exists_ipv4NetmaskToCidr (h : mask ≠ 0) : ∃ p, ipv4NetmaskToCidr mask = .ok p := by
  have hone : 1 ∈ Nat.digits 2 mask := by
    have hnil : Nat.digits 2 mask ≠ [] := Nat.digits_ne_nil_iff_ne_zero.mpr h
    have hlast : (Nat.digits 2 mask).getLast hnil ≠ 0 := Nat.getLast_digit_ne_zero 2 h
    have hmem := List.getLast_mem hnil
    have hlt := Nat.digits_lt_base (by omega) hmem
    have heq : (Nat.digits 2 mask).getLast hnil = 1 := by omega
    rw [← heq]
    exact hmem
  unfold ipv4NetmaskToCidr
  cases hidx : (Nat.digits 2 mask).idxOf? 1 with
  | none => exact absurd hone (List.idxOf?_eq_none_iff.mp hidx)
  | some i => exact ⟨_, rfl⟩

theorem IsNetmask.ipv4NetmaskToCidr (h : IsNetmask mask p) (hmask : mask ≠ 0) :
    ipv4NetmaskToCidr mask = .ok p := by
  obtain ⟨hp, rfl⟩ := isNetmask_iff.mp h
  have hlen := ipv4NetmaskToCidr_netmask (IPv4Network.ofInterface ⟨0, by norm_num⟩ p hp)
  have hne : p ≠ 0 := by
    intro hzero
    subst hzero
    exact hmask (by norm_num)
  refine hlen.trans ?_
  exact if_neg hne

end masks

/-! ### Interface networks -/

theorem IPv4Network.eq_ofInterface_iff {a : IPv4Address} {p : ℕ} (hp : p ≤ 32) (n : IPv4Network) :
    n.prefixlen = p ∧ n.contains a ↔ n = IPv4Network.ofInterface a p hp := by
  obtain ⟨⟨base, hlt⟩, len, hle, haligned⟩ := n
  constructor
  · rintro ⟨rfl, hcontains⟩
    have hbase : a.toNat - a.toNat % 2 ^ (32 - len) = base := of_decide_eq_true hcontains
    subst hbase
    rfl
  · intro heq
    unfold IPv4Network.ofInterface at heq
    injection heq with hbase hlen
    injection hbase with hbase
    subst hbase hlen
    exact ⟨rfl, decide_eq_true rfl⟩

theorem ipv4NicNetwork_size (a : IPv4Address) {p : ℕ} (hp : p ≤ 32) :
    ipv4NicNetwork a (.size p) = .ok (IPv4Network.ofInterface a p hp) := by
  have hint : (if p < 32 then a.toNat - (a.toNat &&& ((1 <<< (32 - p)) - 1)) else a.toNat) =
      a.toNat - a.toNat % 2 ^ (32 - p) := by
    split_ifs with hlt
    · rw [Nat.one_shiftLeft, Nat.and_two_pow_sub_one_eq_mod]
    · rw [show 32 - p = 0 by omega, pow_zero, Nat.mod_one, Nat.sub_zero]
  show (IPv4Address.ofNat _ >>= fun ipNetAddr => _) = _
  rw [hint, IPv4Address.ofNat_eq_ok (lt_of_le_of_lt (Nat.sub_le _ _) a.lt)]
  show (if h : p ≤ 32 then _ else _) = _
  rw [dif_pos hp, IPv4Network.ofAddress, dif_pos (Nat.dvd_sub_mod _)]
  rfl

theorem ipv4NicNetwork_mask (a m : IPv4Address) :
    ipv4NicNetwork a (.mask m) = ipv4NetmaskToCidr m.toNat >>= fun p => ipv4NicNetwork a (.size p) := by
  unfold ipv4NicNetwork
  show (ipv4NetmaskToCidr m.toNat >>= fun maskSize => _) = _
  cases ipv4NetmaskToCidr m.toNat <;> rfl

/-! ### When the conversions are right -/

/-- `ipv4_netmask_to_cidr` returns the length of a contiguous mask, and raises `ValueError` for the others. -/
def ConvertsMask (mask : IPv4Address) : Prop :=
  (∀ p, ipv4NetmaskToCidr mask.toNat = .ok p ↔ IsNetmask mask.toNat p) ∧
    ((¬ ∃ p, IsNetmask mask.toNat p) → ∃ message, ipv4NetmaskToCidr mask.toNat = .error (.value message))

/-- The netmask argument stands for the contiguous mask of length `p`. -/
def NicNetmask.HasLength (p : ℕ) : NicNetmask → Prop
  | .size n => n = p ∧ p ≤ 32
  | .mask m => IsNetmask m.toNat p

/-- `ipv4_nic_network` returns the one network of length `p` that contains the address. -/
def FindsNetwork (a : IPv4Address) (netmask : NicNetmask) (p : ℕ) : Prop :=
  ∃ n, ipv4NicNetwork a netmask = .ok n ∧ ∀ m : IPv4Network, m.prefixlen = p ∧ m.contains a ↔ m = n

theorem convertsMask_iff (mask : IPv4Address) :
    ConvertsMask mask ↔ mask.toNat ≠ 0 ∧ ∃ p, IsNetmask mask.toNat p := by
  constructor
  · rintro ⟨hok, -⟩
    have hne : mask.toNat ≠ 0 := by
      intro hzero
      have hcidr := (hok 0).mpr (hzero ▸ isNetmask_zero)
      rw [hzero] at hcidr
      cases hcidr
    obtain ⟨p, hp⟩ := exists_ipv4NetmaskToCidr hne
    exact ⟨hne, p, (hok p).mp hp⟩
  · rintro ⟨hne, p, hp⟩
    refine ⟨fun q => ?_, fun hnone => absurd ⟨p, hp⟩ hnone⟩
    rw [hp.ipv4NetmaskToCidr hne, Except.ok.injEq]
    exact ⟨fun heq => heq ▸ hp, fun hq => hp.unique hq⟩

theorem findsNetwork_iff (a : IPv4Address) {netmask : NicNetmask} {p : ℕ} (h : netmask.HasLength p) :
    FindsNetwork a netmask p ↔ netmask ≠ .mask ⟨0, by norm_num⟩ := by
  have hsize : ∀ hp : p ≤ 32, FindsNetwork a (.size p) p := fun hp =>
    ⟨_, ipv4NicNetwork_size a hp, IPv4Network.eq_ofInterface_iff hp⟩
  cases netmask with
  | size n =>
    obtain ⟨rfl, hp⟩ := h
    exact ⟨fun _ => NicNetmask.noConfusion, fun _ => hsize hp⟩
  | mask m =>
    constructor
    · rintro ⟨n, hok, -⟩ hzero
      injection hzero with hzero
      subst hzero
      rw [ipv4NicNetwork_mask] at hok
      cases hok
    · intro hne
      have hnum : m.toNat ≠ 0 := fun hzero => hne (congrArg _ (IPv4Address.ext hzero))
      unfold FindsNetwork
      rw [ipv4NicNetwork_mask, h.ipv4NetmaskToCidr hnum]
      exact hsize h.1

/-- The mask conversion is right on the contiguous masks other than zero, and the network of an interface is
right for every length that is not given as the zero mask. -/
theorem ipv4_masks_iff (mask : IPv4Address) :
    (ConvertsMask mask ↔ mask.toNat ≠ 0 ∧ ∃ p, IsNetmask mask.toNat p) ∧
      ∀ (a : IPv4Address) (netmask : NicNetmask) (p : ℕ), netmask.HasLength p →
        (FindsNetwork a netmask p ↔ netmask ≠ .mask ⟨0, by norm_num⟩) :=
  ⟨convertsMask_iff mask, fun a _ _ h => findsNetwork_iff a h⟩

/-- `192.168.1.77` with the mask `255.255.255.0`. -/
theorem ipv4_masks_iff_at_255_255_255_0 :
    NicNetmask.HasLength 24 (.mask ⟨0xFFFFFF00, by norm_num⟩) ∧
      FindsNetwork ⟨0xC0A8014D, by norm_num⟩ (.mask ⟨0xFFFFFF00, by norm_num⟩) 24 := by
  have hlen : NicNetmask.HasLength 24 (.mask ⟨0xFFFFFF00, by norm_num⟩) :=
    isNetmask_iff.mpr ⟨by omega, by norm_num⟩
  refine ⟨hlen, ((ipv4_masks_iff ⟨0xFFFFFF00, by norm_num⟩).2 _ _ _ hlen).mpr fun hzero => ?_⟩
  injection hzero with hzero
  injection hzero with hzero
  omega

/-- `0.0.0.0` is refused, and `255.0.255.0` gives 24. -/
theorem not_convertsMask_zero :
    ¬ ConvertsMask ⟨0, by norm_num⟩ ∧
      ipv4NetmaskToCidr 0xFF00FF00 = .ok 24 ∧ ¬ ConvertsMask ⟨0xFF00FF00, by norm_num⟩ := by
  have hcidr : ipv4NetmaskToCidr 0xFF00FF00 = .ok 24 := by decide
  refine ⟨fun h => ?_, hcidr, fun h => ?_⟩
  · have hok := (h.1 0).mpr isNetmask_zero
    cases hok
  · obtain ⟨-, hmask⟩ := isNetmask_iff.mp ((h.1 24).mp hcidr)
    norm_num at hmask

end Uno
