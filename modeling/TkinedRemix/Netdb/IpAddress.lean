import Mathlib

/-!
The check of a dotted IP address in `tnmUtil.c`, one pass that counts the dots and the value behind the last one.
-/

namespace Tnm

open List

def validateLoop : Nat → Nat → List Char → Bool
  | dots, _, [] => dots == 3
  | dots, a, char :: rest =>
    if char.isDigit || char == '.' then
      let next := if char = '.' then (dots + 1, 0) else (dots, 10 * a + (char.toNat - 48))
      if 3 < next.1 || 255 < next.2 then false else validateLoop next.1 next.2 rest
    else false

def tnmValidateIpAddress (address : List Char) : Bool := validateLoop 0 0 address

/-- Digits behind the number `a`, none of them perhaps, that keep it in range. -/
def Octet (a : Nat) (part : List Char) : Prop :=
  (∀ char ∈ part, char.isDigit = true) ∧ Nat.ofDigitChars 10 part a ≤ 255

def IpAddress (address : List Char) : Prop :=
  ∃ parts : List (List Char), parts.length = 4 ∧ (∀ part ∈ parts, part ≠ [] ∧ Octet 0 part) ∧
    ['.'].intercalate parts = address

def Octets4 (dots a : Nat) : List (List Char) → Prop
  | [] => False
  | first :: rest => dots + rest.length = 3 ∧ Octet a first ∧ ∀ part ∈ rest, Octet 0 part

theorem octet_le {a : Nat} {part : List Char} (octet : Octet a part) : a ≤ 255 := by
  have grown := octet.2
  rw [Nat.ofDigitChars_eq_ofDigitChars_zero] at grown
  have := Nat.le_mul_of_pos_left a (Nat.pow_pos (n := part.length) (show 0 < 10 by decide))
  omega

theorem octet_cons {a : Nat} {char : Char} {part : List Char} :
    Octet a (char :: part) ↔ char.isDigit = true ∧ Octet (10 * a + (char.toNat - 48)) part := by
  rw [Octet, forall_mem_cons, and_assoc]
  rfl

theorem validateLoop_iff {text : List Char} {dots a : Nat} (small : a ≤ 255) :
    validateLoop dots a text = true ↔ Octets4 dots a (splitOn '.' text) := by
  induction text generalizing dots a with
  | nil => simp [validateLoop, Octets4, Octet, small]
  | cons char text ih =>
    obtain ⟨next, more, split⟩ := exists_cons_of_ne_nil (splitOnP_ne_nil (· == '.') text)
    rw [← splitOn] at split
    rw [split] at ih
    rw [splitOn, splitOnP_cons_eq_if_modifyHead, ← splitOn, split, validateLoop]
    by_cases isDot : char = '.'
    · have none : Octet a [] := ⟨nofun, small⟩
      have count : dots + (more.length + 1) = dots + 1 + more.length := by omega
      by_cases full : 3 < dots + 1
      · have beyond : dots + 1 + more.length ≠ 3 := by omega
        simp [isDot, full, Octets4, count, beyond]
      · simp [isDot, full, ih, Octets4, none, count]
    · by_cases digit : char.isDigit = true
      · simp [isDot, digit, Octets4, octet_cons]
        by_cases more : 10 * a + (char.toNat - 48) ≤ 255
        · simp [ih more, Octets4]
          omega
        · have large : ¬ Octet (10 * a + (char.toNat - 48)) next := fun octet => more (octet_le octet)
          simp [more, large]
      · simp [isDot, digit, Octets4, octet_cons]

theorem tnmValidateIpAddress_parts (address : List Char) : tnmValidateIpAddress address = true ↔
    (splitOn '.' address).length = 4 ∧ ∀ part ∈ splitOn '.' address, Octet 0 part := by
  rw [tnmValidateIpAddress, validateLoop_iff (Nat.zero_le 255)]
  cases splitOn '.' address with
  | nil => simp [Octets4]
  | cons =>
    rw [Octets4, forall_mem_cons, length_cons, Nat.zero_add, Nat.succ_inj]

theorem ipAddress_iff (address : List Char) :
    IpAddress address ↔ tnmValidateIpAddress address = true ∧ [] ∉ splitOn '.' address := by
  rw [tnmValidateIpAddress_parts]
  constructor
  · rintro ⟨parts, four, octets, rfl⟩
    have plain : ∀ part ∈ parts, '.' ∉ part :=
      fun part member dot => absurd ((octets part member).2.1 '.' dot) (by decide)
    rw [splitOn_intercalate '.' plain (by rintro rfl; cases four)]
    exact ⟨⟨four, fun part member => (octets part member).2⟩, fun empty => (octets [] empty).1 rfl⟩
  · rintro ⟨⟨four, octets⟩, filled⟩
    have parts : ∀ part ∈ splitOn '.' address, part ≠ [] ∧ Octet 0 part :=
      fun part member => ⟨fun empty => filled (empty ▸ member), octets part member⟩
    exact ⟨_, four, parts, intercalate_splitOn '.'⟩

/-- An address is taken for one exactly if it is one, unless it has four numbers and one of them no digits. -/
theorem tnmValidateIpAddress_iff (address : List Char) : (tnmValidateIpAddress address = true ↔ IpAddress address) ↔
    ¬ ((splitOn '.' address).length = 4 ∧ (∀ part ∈ splitOn '.' address, Octet 0 part) ∧
      [] ∈ splitOn '.' address) := by
  rw [ipAddress_iff, tnmValidateIpAddress_parts]
  tauto

theorem tnmValidateIpAddress_dots : tnmValidateIpAddress ['.', '.', '.'] = true ∧ ¬ IpAddress ['.', '.', '.'] := by
  rw [ipAddress_iff]
  decide

end Tnm
