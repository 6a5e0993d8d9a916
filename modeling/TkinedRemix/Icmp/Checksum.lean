import Mathlib

/-!
The checksum of the ICMP packets. The shorts are read in the byte order of the host.
-/

namespace Tnm.Icmp

def shortAt (bigEndian : Bool) (first second : UInt8) : Nat :=
  if bigEndian then first.toNat * 256 + second.toNat else second.toNat * 256 + first.toNat

def ntohs (bigEndian : Bool) (short : Nat) : Nat := if bigEndian then short else short % 256 * 256 + short / 256

def sumShorts (bigEndian : Bool) (sum : Nat) : List UInt8 → Nat
  | first :: second :: rest => sumShorts bigEndian (sum + shortAt bigEndian first second) rest
  | [octet] => sum + ntohs bigEndian (octet.toNat * 256)
  | [] => sum

/-- The 32 bits that are returned; a sum that does not fit an `int` has no result. -/
def calcIcmpCksum (bigEndian : Bool) (packet : List UInt8) : Option Nat :=
  let sum := sumShorts bigEndian 0 packet
  let folded := sum / 65536 + sum % 65536
  if sum < 2 ^ 31 then some (2 ^ 32 - 1 - (folded + folded / 65536)) else none

/-- The two octets of an unsigned short to which the value is assigned. -/
def storeShort (bigEndian : Bool) (value : Nat) : List UInt8 :=
  if bigEndian then [.ofNat (value / 256), .ofNat value] else [.ofNat value, .ofNat (value / 256)]

def onesAdd (first second : Nat) : Nat := if first + second < 65536 then first + second else first + second - 65535

/-- The one's complement sum of the words in network byte order. -/
def onesSum : List UInt8 → Nat
  | first :: second :: rest => onesAdd (first.toNat * 256 + second.toNat) (onesSum rest)
  | [octet] => octet.toNat * 256
  | [] => 0

variable (bigEndian : Bool)

theorem sumShorts_add (sum more : Nat) (packet : List UInt8) :
    sumShorts bigEndian (sum + more) packet = sumShorts bigEndian sum packet + more := by
  fun_induction sumShorts bigEndian sum packet with
  | case1 sum first second rest ih => rw [sumShorts, ← ih, Nat.add_right_comm]
  | case2 => rw [sumShorts, Nat.add_right_comm]
  | case3 => rw [sumShorts]

theorem sumShorts_spec (sum : Nat) (packet : List UInt8) :
    onesSum packet ≤ 65535 ∧ (onesSum packet = 0 → sumShorts bigEndian sum packet = sum) ∧
      sumShorts bigEndian sum packet ≤ sum + 65535 * ((packet.length + 1) / 2) ∧
      sumShorts bigEndian sum packet % 65535 = (sum + (if bigEndian then 1 else 256) * onesSum packet) % 65535 := by
  fun_induction sumShorts bigEndian sum packet with
  | case1 sum first second rest ih =>
    have one := first.toNat_lt
    have two := second.toNat_lt
    rw [onesSum, onesAdd, List.length_cons, List.length_cons]
    cases bigEndian <;> simp only [shortAt, Bool.false_eq_true, if_false, if_true] at ih ⊢ <;> split <;> omega
  | case2 sum octet =>
    have one := octet.toNat_lt
    rw [onesSum, List.length_singleton]
    cases bigEndian <;> simp only [ntohs, Bool.false_eq_true, if_false, if_true] <;> omega
  | case3 => simp [onesSum]

theorem onesSum_of_sumShorts {packet : List UInt8} {count : Nat}
    (sum : sumShorts bigEndian 0 packet = 65535 * (count + 1)) :
    onesSum packet = 65535 := by
  obtain ⟨bound, zero, _, same⟩ := sumShorts_spec bigEndian 0 packet
  rw [sum, Nat.mul_mod_right] at same
  cases bigEndian <;> simp only [Bool.false_eq_true, if_false, if_true] at same <;> omega

theorem shortAt_storeShort (value : Nat) : ∃ first second,
    storeShort bigEndian value = [first, second] ∧ shortAt bigEndian first second = value % 65536 := by
  cases bigEndian <;> refine ⟨_, _, rfl, ?_⟩ <;>
    simp only [shortAt, UInt8.toNat_ofNat', Bool.false_eq_true, if_false, if_true] <;> omega

theorem calcIcmpCksum_eq {packet : List UInt8} (short : packet.length ≤ 65535) : ∃ cksum count,
    calcIcmpCksum bigEndian packet = some cksum ∧ sumShorts bigEndian 0 packet + cksum % 65536 =
      65535 * (count + 1) := by
  have bound := (sumShorts_spec bigEndian 0 packet).2.2.1
  rw [calcIcmpCksum]
  generalize sumShorts bigEndian 0 packet = sum at bound ⊢
  rw [if_pos (by omega)]
  by_cases carry : sum / 65536 + sum % 65536 < 65536
  · refine ⟨_, sum / 65536, rfl, ?_⟩
    rw [Nat.div_eq_of_lt carry]
    omega
  · refine ⟨_, sum / 65536 + 1, rfl, ?_⟩
    rw [show (sum / 65536 + sum % 65536) / 65536 = 1 by omega]
    omega

/-- With the checksum in its place the sum of all words is the one's complement zero. -/
theorem calcIcmpCksum_verifies (type code : UInt8) (rest : List UInt8) (short : rest.length + 4 ≤ 65535) :
    ∃ cksum, calcIcmpCksum bigEndian (type :: code :: 0 :: 0 :: rest) = some cksum ∧
      onesSum (type :: code :: (storeShort bigEndian cksum ++ rest)) = 65535 := by
  obtain ⟨cksum, _, returns, verifies⟩ := @calcIcmpCksum_eq bigEndian (type :: code :: 0 :: 0 :: rest) short
  obtain ⟨first, second, octets, stored⟩ := shortAt_storeShort bigEndian cksum
  have sum : sumShorts bigEndian 0 (type :: code :: first :: second :: rest) =
      sumShorts bigEndian 0 (type :: code :: 0 :: 0 :: rest) + shortAt bigEndian first second := by
    have zero : shortAt bigEndian 0 0 = 0 := by cases bigEndian <;> rfl
    rw [sumShorts, sumShorts, sumShorts_add, sumShorts, sumShorts, zero, Nat.add_zero]
  rw [← stored, ← sum] at verifies
  refine ⟨cksum, returns, ?_⟩
  rw [octets]
  exact onesSum_of_sumShorts bigEndian verifies

/-- An odd length on a host that stores the low octet first. -/
theorem calcIcmpCksum_odd : ∃ cksum, calcIcmpCksum false [8, 0, 0, 0, 0x12] = some cksum ∧
    onesSum (8 :: 0 :: (storeShort false cksum ++ [0x12])) = 65535 :=
  calcIcmpCksum_verifies false 8 0 [0x12] (by decide)

end Tnm.Icmp
