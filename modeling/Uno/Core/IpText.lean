import Uno.Core.Ip
import Uno.Core.Text
import Uno.Lib.Fold

/-!
# Texts of IPv4 addresses

`str(address)` is the dotted form, and `ip_address(text)` reads it back (`ipAddress_str`).
-/

namespace Uno

namespace IPv4Address

def octets (a : IPv4Address) : List ℕ :=
  [a.toNat / 2 ^ 24, a.toNat / 2 ^ 16 % 2 ^ 8, a.toNat / 2 ^ 8 % 2 ^ 8, a.toNat % 2 ^ 8]

/-- `str(address)`. -/
def str (a : IPv4Address) : Text := ['.'].intercalate (a.octets.map dec)

/-- One octet: digits, three at most, no leading zero, and at most 255. -/
def parseOctet (text : Text) : Result ℕ :=
  if text.length ≤ 3 ∧ (text.head? = some '0' → text.length = 1) then do
    let octet ← pyInt text
    if octet ≤ 255 then .ok octet else .error (.value "octet > 255 is not permitted")
  else .error (.value "not a decimal octet")

def ofOctets : List ℕ → Result IPv4Address
  | [a, b, c, d] => ofNat (a * 2 ^ 24 + b * 2 ^ 16 + c * 2 ^ 8 + d)
  | _ => .error (.value "does not appear to be an IPv4 or IPv6 address")

end IPv4Address

/-- `ip_address(text)`, for IPv4. -/
def ipAddress (text : Text) : Result IPv4Address :=
  (text.splitOn '.').mapM IPv4Address.parseOctet >>= IPv4Address.ofOctets

namespace IPv4Address

theorem parseOctet_dec {n : ℕ} (h : n < 256) : parseOctet (dec n) = .ok n := by
  have hshape : ∀ m : Fin 256, (dec m.val).length ≤ 3 ∧ ((dec m.val).head? = some '0' → (dec m.val).length = 1) := by
    decide +kernel
  rw [parseOctet, if_pos (hshape ⟨n, h⟩), pyInt_dec]
  exact if_pos (Nat.le_of_lt_succ h)

theorem octets_lt (a : IPv4Address) : ∀ n ∈ a.octets, n < 256 := by
  have hlt := a.lt
  simp only [octets, List.mem_cons, List.not_mem_nil, or_false]
  rintro n (rfl | rfl | rfl | rfl) <;> omega

theorem ofOctets_octets (a : IPv4Address) : ofOctets a.octets = .ok a := by
  have hsum : a.toNat / 2 ^ 24 * 2 ^ 24 + a.toNat / 2 ^ 16 % 2 ^ 8 * 2 ^ 16 + a.toNat / 2 ^ 8 % 2 ^ 8 * 2 ^ 8 +
      a.toNat % 2 ^ 8 = a.toNat := by omega
  rw [octets, ofOctets, hsum]
  exact ofNat_eq_ok a.lt

theorem ipAddress_str (a : IPv4Address) : ipAddress a.str = .ok a := by
  have hsplit : a.str.splitOn '.' = a.octets.map dec := by
    refine List.splitOn_intercalate '.' (fun c hc hdot => ?_) (List.cons_ne_nil _ _)
    obtain ⟨n, -, rfl⟩ := List.mem_map.mp hc
    exact ne_of_mem_dec hdot (by decide) rfl
  have hparse : (a.octets.map dec).mapM parseOctet = .ok a.octets := by
    rw [Fold.mapM_eq_ok_iff, List.forall₂_map_left_iff, List.forall₂_same]
    exact fun n hn => parseOctet_dec (octets_lt a n hn)
  unfold ipAddress
  rw [hsplit, hparse, Except.ok_bind, ofOctets_octets]

end IPv4Address

end Uno
