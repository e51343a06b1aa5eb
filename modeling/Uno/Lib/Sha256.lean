import Uno.Lib.Bytes
import Mathlib.Data.List.Basic

/-!
# SHA-256

The hash of FIPS 180-4, on messages of whole bytes, and the hexadecimal text of a digest. Only the shape of a digest
is proved here: it has 32 bytes (`sha256_length`), and its text has twice as many characters, all of them
hexadecimal digits (`hexdigest_length`, `isHexDigit_of_mem_hexdigest`), and determines it (`hexdigest_injective`).
-/

namespace Sha256

def rotr (x : UInt32) (n : UInt32) : UInt32 := (x >>> n) ||| (x <<< (32 - n))

def ch (x y z : UInt32) : UInt32 := (x &&& y) ^^^ (~~~x &&& z)

def maj (x y z : UInt32) : UInt32 := (x &&& y) ^^^ (x &&& z) ^^^ (y &&& z)

def bigSigma0 (x : UInt32) : UInt32 := rotr x 2 ^^^ rotr x 13 ^^^ rotr x 22

def bigSigma1 (x : UInt32) : UInt32 := rotr x 6 ^^^ rotr x 11 ^^^ rotr x 25

def smallSigma0 (x : UInt32) : UInt32 := rotr x 7 ^^^ rotr x 18 ^^^ (x >>> 3)

def smallSigma1 (x : UInt32) : UInt32 := rotr x 17 ^^^ rotr x 19 ^^^ (x >>> 10)

/-- The constants of the rounds. -/
def roundConstants : List UInt32 :=
  [0x428a2f98, 0x71374491, 0xb5c0fbcf, 0xe9b5dba5, 0x3956c25b, 0x59f111f1, 0x923f82a4, 0xab1c5ed5,
    0xd807aa98, 0x12835b01, 0x243185be, 0x550c7dc3, 0x72be5d74, 0x80deb1fe, 0x9bdc06a7, 0xc19bf174,
    0xe49b69c1, 0xefbe4786, 0x0fc19dc6, 0x240ca1cc, 0x2de92c6f, 0x4a7484aa, 0x5cb0a9dc, 0x76f988da,
    0x983e5152, 0xa831c66d, 0xb00327c8, 0xbf597fc7, 0xc6e00bf3, 0xd5a79147, 0x06ca6351, 0x14292967,
    0x27b70a85, 0x2e1b2138, 0x4d2c6dfc, 0x53380d13, 0x650a7354, 0x766a0abb, 0x81c2c92e, 0x92722c85,
    0xa2bfe8a1, 0xa81a664b, 0xc24b8b70, 0xc76c51a3, 0xd192e819, 0xd6990624, 0xf40e3585, 0x106aa070,
    0x19a4c116, 0x1e376c08, 0x2748774c, 0x34b0bcb5, 0x391c0cb3, 0x4ed8aa4a, 0x5b9cca4f, 0x682e6ff3,
    0x748f82ee, 0x78a5636f, 0x84c87814, 0x8cc70208, 0x90befffa, 0xa4506ceb, 0xbef9a3f7, 0xc67178f2]

structure Working where
  a : UInt32
  b : UInt32
  c : UInt32
  d : UInt32
  e : UInt32
  f : UInt32
  g : UInt32
  h : UInt32
  deriving DecidableEq

/-- The hash before the first block. -/
def initial : Working :=
  ⟨0x6a09e667, 0xbb67ae85, 0x3c6ef372, 0xa54ff53a, 0x510e527f, 0x9b05688c, 0x1f83d9ab, 0x5be0cd19⟩

def Working.add (s t : Working) : Working :=
  ⟨s.a + t.a, s.b + t.b, s.c + t.c, s.d + t.d, s.e + t.e, s.f + t.f, s.g + t.g, s.h + t.h⟩

def round (k w : UInt32) (s : Working) : Working :=
  let t1 := s.h + bigSigma1 s.e + ch s.e s.f s.g + k + w
  ⟨t1 + (bigSigma0 s.a + maj s.a s.b s.c), s.a, s.b, s.c, s.d + t1, s.e, s.f, s.g⟩

/-- The word of the message schedule that comes after sixteen others. -/
def nextWord (window : List UInt32) : UInt32 :=
  smallSigma1 (window.getD 14 0) + window.getD 9 0 + smallSigma0 (window.getD 1 0) + window.getD 0 0

/-- One round for each constant; the window holds the next sixteen words of the message schedule. -/
def rounds : List UInt32 → List UInt32 → Working → Working
  | [], _, s => s
  | k :: ks, window, s => rounds ks (window.tail ++ [nextWord window]) (round k (window.getD 0 0) s)

def compress (s : Working) (block : List UInt32) : Working := s.add (rounds roundConstants block s)

/-- A one bit, zeros and the length in bits, up to whole blocks of 64 bytes. -/
def pad (message : List UInt8) : List UInt8 :=
  message ++ 0x80 :: List.replicate ((119 - message.length % 64) % 64) 0 ++ Bytes.toBytes 8 (8 * message.length)

def words : List UInt8 → List UInt32
  | b₀ :: b₁ :: b₂ :: b₃ :: rest =>
    ((b₀.toUInt32 <<< 24) ||| (b₁.toUInt32 <<< 16) ||| (b₂.toUInt32 <<< 8) ||| b₃.toUInt32) :: words rest
  | _ => []

def blocks (padded : List UInt32) : List (List UInt32) :=
  (List.range (padded.length / 16)).map fun i => (padded.drop (16 * i)).take 16

def sha256 (message : List UInt8) : List UInt8 :=
  let s := (blocks (words (pad message))).foldl compress initial
  [s.a, s.b, s.c, s.d, s.e, s.f, s.g, s.h].flatMap fun x => Bytes.toBytes 4 x.toNat

def hexdigest (digest : List UInt8) : List Char :=
  digest.flatMap fun b => [Nat.digitChar (b.toNat / 16), Nat.digitChar (b.toNat % 16)]

example : hexdigest (sha256 [97, 98, 99]) =
    "ba7816bf8f01cfea414140de5dae2223b00361a396177a9cb410ff61f20015ad".toList := by
  decide +kernel

theorem length_toBytes (length n : ℕ) : (Bytes.toBytes length n).length = length := by
  induction length generalizing n with
  | zero => rfl
  | succ length ih => rw [Bytes.toBytes, List.length_append, ih, List.length_singleton]

theorem sha256_length (message : List UInt8) : (sha256 message).length = 32 := by
  simp [sha256, length_toBytes]

/-! ### Hexadecimal text -/

def IsHexDigit (c : Char) : Prop := c ∈ "0123456789abcdef".toList

theorem isHexDigit_digitChar : ∀ {n : ℕ}, n < 16 → IsHexDigit (Nat.digitChar n) := by
  unfold IsHexDigit
  decide

theorem digitChar_inj {m n : ℕ} (hm : m < 16) (hn : n < 16) (h : Nat.digitChar m = Nat.digitChar n) : m = n := by
  have hall : ∀ m < 16, ∀ n < 16, Nat.digitChar m = Nat.digitChar n → m = n := by decide
  exact hall m hm n hn h

theorem hexdigest_length (digest : List UInt8) : (hexdigest digest).length = 2 * digest.length := by
  simp [hexdigest, List.length_flatMap, Nat.mul_comm]

theorem byte_div_lt (b : UInt8) : b.toNat / 16 < 16 := by
  have hb := b.toNat_lt
  omega

theorem isHexDigit_of_mem_hexdigest {digest : List UInt8} {c : Char} (h : c ∈ hexdigest digest) :
    IsHexDigit c := by
  obtain ⟨b, -, hc⟩ := List.mem_flatMap.mp h
  rcases List.mem_pair.mp hc with rfl | rfl
  · exact isHexDigit_digitChar (byte_div_lt b)
  · exact isHexDigit_digitChar (Nat.mod_lt _ (by decide))

theorem hexdigest_injective : Function.Injective hexdigest := by
  intro a b hab
  induction a generalizing b with
  | nil =>
    have hlength := congrArg List.length hab
    rw [hexdigest_length, hexdigest_length, List.length_nil] at hlength
    exact (List.length_eq_zero_iff.mp (by omega)).symm
  | cons x a ih =>
    cases b with
    | nil =>
      have hlength := congrArg List.length hab
      rw [hexdigest_length, hexdigest_length, List.length_nil, List.length_cons] at hlength
      omega
    | cons y b =>
      simp only [hexdigest, List.flatMap_cons, List.cons_append, List.nil_append, List.cons.injEq] at hab
      obtain ⟨hhigh, hlow, hrest⟩ := hab
      have hdiv := digitChar_inj (byte_div_lt x) (byte_div_lt y) hhigh
      have hmod := digitChar_inj (Nat.mod_lt _ (by decide)) (Nat.mod_lt _ (by decide)) hlow
      have hxy : x = y := UInt8.toNat_inj.mp (by omega)
      rw [hxy, ih hrest]

end Sha256
