import TkinedRemix.Snmp.BerEncode

/-!
`TnmBerEncOID` with the array of its caller, which holds the sum of the first two sub-identifiers meanwhile.
-/

namespace Tnm

open Lib List

def encSubids (size : Nat) : Oid → Octets → Option Octets
  | [], out => some out
  | subid :: rest, out => do
      let out ← tnmBerEncBytes size (subidOctets subid) out
      encSubids size rest out

/-- The result of `TnmBerEncOID`, and the array behind it. -/
def tnmBerEncOIDArray (size : Nat) (oid : Oid) (out : Octets) : Option Octets × Oid :=
  if oid.length < 2 ∨ oid.headD 0 > 2 then (none, oid)
  else
    match tnmBerEncByte size asn1ObjectIdentifier out with
    | none => (none, oid)
    | some out =>
      let length := out.length
      match tnmBerEncByte size 0 out with
      | none => (none, oid)
      | some out =>
        let packed := oid.set 1 ((oid.getD 1 0 + oid.getD 0 0 * 40) % 2 ^ 32)
        let written := encSubids size (packed.drop 1) out
        let restored := packed.set 1 ((packed.getD 1 0 + 2 ^ 32 - packed.getD 0 0 * 40) % 2 ^ 32)
        (written.bind fun out => tnmBerEncLength size length (out.length - (length + 1)) out, restored)

theorem encBytes_append {size : Nat} (front back out : Octets) :
    tnmBerEncBytes size (front ++ back) out = (tnmBerEncBytes size front out).bind (tnmBerEncBytes size back) := by
  induction front generalizing out with
  | nil => rfl
  | cons byte _ ih =>
    rw [cons_append, tnmBerEncBytes, tnmBerEncBytes]
    cases tnmBerEncByte size byte out with
    | none => rfl
    | some next => exact ih next

theorem encSubids_eq {size : Nat} (subids : Oid) (out : Octets) :
    encSubids size subids out = tnmBerEncBytes size (subids.map subidOctets).flatten out := by
  induction subids generalizing out with
  | nil => rfl
  | cons subid _ ih =>
    rw [encSubids, map_cons, flatten_cons, encBytes_append]
    cases tnmBerEncBytes size (subidOctets subid) out with
    | none => rfl
    | some next => exact ih next

theorem packed_octets {oid : Oid} (long : 2 ≤ oid.length) :
    (((oid.set 1 ((oid.getD 1 0 + oid.getD 0 0 * 40) % 2 ^ 32)).drop 1).map subidOctets).flatten = oidOctets oid := by
  match oid, long with
  | first :: second :: rest, _ => rfl

theorem restored_eq {oid : Oid} (legal : oid.headD 0 ≤ 2) (bounds : ∀ subid ∈ oid, subid < 2 ^ 32) :
    (oid.set 1 ((oid.getD 1 0 + oid.getD 0 0 * 40) % 2 ^ 32)).set 1
      (((oid.set 1 ((oid.getD 1 0 + oid.getD 0 0 * 40) % 2 ^ 32)).getD 1 0 + 2 ^ 32 -
        (oid.set 1 ((oid.getD 1 0 + oid.getD 0 0 * 40) % 2 ^ 32)).getD 0 0 * 40) % 2 ^ 32) = oid := by
  match oid with
  | [] => rfl
  | [_] => rfl
  | first :: second :: rest =>
    have secondBound := bounds second (by simp)
    rw [headD_cons] at legal
    simp only [getD_cons_zero, getD_cons_succ, set_cons_succ, set_cons_zero, List.cons.injEq, true_and,
      and_true]
    omega

theorem encOIDArray_result (size : Nat) (oid : Oid) (out : Octets) :
    (tnmBerEncOIDArray size oid out).1 = tnmBerEncOID size oid out := by
  rw [tnmBerEncOIDArray, tnmBerEncOID]
  split
  next => rfl
  next legal =>
    cases first : tnmBerEncByte size asn1ObjectIdentifier out with
    | none => rfl
    | some started =>
      cases second : tnmBerEncByte size 0 started with
      | none => simp [second]
      | some =>
        obtain ⟨_, rfl⟩ := encByte_eq_some.mp second
        simp only [second, encSubids_eq, packed_octets (show 2 ≤ oid.length by omega), Option.bind_eq_bind,
          Option.bind_some]
        cases third : tnmBerEncBytes size (oidOctets oid) (started ++ [0]) with
        | none => rfl
        | some =>
          have room : (started ++ [0]).length ≤ size := by
            rw [length_append, length_singleton]
            omega
          obtain ⟨rfl, _⟩ := encBytes_eq_some room third
          have measured : (started ++ [0] ++ oidOctets oid).length - (started.length + 1) = (oidOctets oid).length := by
            simp only [length_append, length_singleton]
            omega
          rw [Option.bind_some, Option.bind_some, measured]

theorem encOIDArray_unchanged (size : Nat) {oid : Oid} (bounds : ∀ subid ∈ oid, subid < 2 ^ 32) (out : Octets) :
    (tnmBerEncOIDArray size oid out).2 = oid := by
  rw [tnmBerEncOIDArray]
  split
  next => rfl
  next legal =>
    split
    next => rfl
    next =>
      split
      next => rfl
      next => exact restored_eq (by omega) bounds

def EncodesOid (oid : Oid) : Prop :=
  (∀ size out, (tnmBerEncOIDArray size oid out).2 = oid) ∧
    ∀ size out out', out.length ≤ size → (tnmBerEncOIDArray size oid out).1 = some out' →
      ∃ encoding, out' = out ++ encoding ∧
        ∀ rest pos, tnmBerDecOID ⟨encoding ++ rest, pos⟩ = (some oid, ⟨rest, pos + encoding.length⟩)

theorem significantBits_le (bits subid : Nat) : significantBits bits subid ≤ bits := by
  induction bits with
  | zero => exact Nat.le_refl 0
  | succ =>
    rw [significantBits]
    split <;> omega

theorem subidGroups_length (subid groups : Nat) : (subidGroups (groups + 1) subid).length = groups + 1 := by
  induction groups with
  | zero => rfl
  | succ _ ih => rw [subidGroups, length_cons, ih]

theorem subidOctets_length (subid : Nat) : (subidOctets subid).length ≤ 5 := by
  rw [subidOctets]
  split
  · exact (by decide : 1 ≤ 5)
  · have bits := significantBits_le 32 subid
    cases groups : (significantBits 32 subid + 6) / 7 with
    | zero => exact Nat.zero_le 5
    | succ =>
      rw [subidGroups_length]
      omega

theorem flatten_subidOctets_length (subids : Oid) : ((subids.map subidOctets).flatten).length ≤ 5 * subids.length := by
  induction subids with
  | nil => exact Nat.le_refl 0
  | cons subid =>
    have first := subidOctets_length subid
    rw [map_cons, flatten_cons, length_append, length_cons]
    omega

theorem oidOctets_length (oid : Oid) : (oidOctets oid).length ≤ 5 * oid.length := by
  match oid with
  | [] => exact Nat.zero_le _
  | [_] => exact Nat.zero_le _
  | first :: second :: rest =>
    have sum := subidOctets_length ((second + first * 40) % 2 ^ 32)
    have others := flatten_subidOctets_length rest
    rw [oidOctets, length_append, length_cons, length_cons]
    omega

theorem encOID_decodes {size : Nat} {oid : Oid} (long : 2 ≤ oid.length) (short : oid.length ≤ tnmOidMaxSize)
    (bounds : ∀ subid ∈ oid, subid < 2 ^ 32) {out out' : Octets} (fits : out.length ≤ size)
    (found : tnmBerEncOID size oid out = some out') : ∃ encoding, out' = out ++ encoding ∧
      ∀ rest pos, tnmBerDecOID ⟨encoding ++ rest, pos⟩ = (some (repackOid oid), ⟨rest, pos + encoding.length⟩) := by
  rw [tnmBerEncOID] at found
  split at found
  next => cases found
  next =>
    obtain ⟨_, rfl, rfl, _⟩ := octetString_writes size asn1ObjectIdentifier (oidOctets oid) out out' fits found
    refine ⟨_, rfl, ?_⟩
    intro _ _
    have small : (oidOctets oid).length < 65536 := by
      have length := oidOctets_length oid
      rw [tnmOidMaxSize] at short
      omega
    apply tnmBerDecOID_reads.complete
    exact oid_strict.mpr ⟨_, tlv_encodedLength _ small, oidContent_oidOctets long short bounds⟩

theorem tnmBerEncOID_inverse_iff {oid : Oid} (long : 2 ≤ oid.length) (short : oid.length ≤ tnmOidMaxSize)
    (bounds : ∀ subid ∈ oid, subid < 2 ^ 32) : EncodesOid oid ↔ (oid.headD 0 ≤ 2 → Packs oid) := by
  constructor
  · rintro ⟨_, inverse⟩ legal
    obtain ⟨out', found⟩ : ∃ out', tnmBerEncOID ((oidOctets oid).length + 7) oid [] = some out' := by
      rw [tnmBerEncOID, if_neg (by omega)]
      apply encOctetString_succeeds asn1ObjectIdentifier
      rw [length_nil]
      omega
    obtain ⟨encoding, rfl, decoded⟩ := encOID_decodes long short bounds (Nat.zero_le _) found
    rw [← encOIDArray_result] at found
    obtain ⟨_, shape, holds⟩ := inverse _ [] _ (Nat.zero_le _) found
    subst shape
    have agree := (decoded [] 0).symm.trans (holds [] 0)
    simp only [Prod.mk.injEq, Option.some.injEq] at agree
    exact (repackOid_eq_iff long legal bounds).mp agree.1
  · intro packs
    refine ⟨fun size out => encOIDArray_unchanged size bounds out, ?_⟩
    intro _ _ _ fits found
    rw [encOIDArray_result] at found
    have legal : oid.headD 0 ≤ 2 := by
      by_contra illegal
      rw [tnmBerEncOID, if_pos (by omega)] at found
      cases found
    obtain ⟨encoding, rfl, decoded⟩ := encOID_decodes long short bounds fits found
    rw [(repackOid_eq_iff long legal bounds).mpr (packs legal)] at decoded
    exact ⟨encoding, rfl, decoded⟩

/-- The example of X.690. -/
theorem tnmBerEncOID_inverse_example :
    tnmBerEncOID 20 [2, 100, 3] [] = some [0x06, 3, 0x81, 0x34, 3] ∧ EncodesOid [2, 100, 3] := by
  refine ⟨by decide, (tnmBerEncOID_inverse_iff (by decide) (by decide) (by decide)).mpr fun _ => ?_⟩
  exact ⟨by decide, by decide⟩

/-- 0.40 is decoded as 1.0, and 2.4294967295 as 1.39. -/
theorem tnmBerEncOID_wraps : (tnmBerEncOIDArray 20 [0, 40] [] = (some [0x06, 1, 40], [0, 40]) ∧
      tnmBerDecOID ⟨[0x06, 1, 40], 0⟩ = (some [1, 0], ⟨[], 3⟩)) ∧
    (tnmBerEncOIDArray 20 [2, 4294967295] [] = (some [0x06, 1, 79], [2, 4294967295]) ∧
      tnmBerDecOID ⟨[0x06, 1, 79], 0⟩ = (some [1, 39], ⟨[], 3⟩)) ∧ ¬ EncodesOid [2, 4294967295] := by
  refine ⟨by decide, by decide, ?_⟩
  rintro ⟨_, inverse⟩
  obtain ⟨_, rfl, decoded⟩ := inverse 20 [] [0x06, 1, 79] (by decide) (by decide)
  exact absurd (decoded [] 0) (by decide)

end Tnm
