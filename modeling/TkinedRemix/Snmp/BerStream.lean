import TkinedRemix.Snmp.BerEncode

/-!
The stream that is being encoded, in a buffer of `size` octets. A length that needs more than one octet is made
room for in place. What is written is what the encoders of `BerCore` append.
-/

namespace Tnm

open Lib List

structure BerStream (size : Nat) where
  memory : Octets
  current : Nat
  sized : memory.length = size
  inside : current ≤ size

namespace BerStream

variable {size : Nat}

def octets (ber : BerStream size) : Octets := ber.memory.take ber.current

theorem octets_length (ber : BerStream size) : ber.octets.length = ber.current := by
  rw [octets, length_take_of_le]
  rw [ber.sized]
  exact ber.inside

def encByte (byte : UInt8) (ber : BerStream size) : Option (BerStream size) :=
  if room : ber.current < size then
    some ⟨ber.memory.set ber.current byte, ber.current + 1, by simp [ber.sized], room⟩
  else none

def encBytes : Octets → BerStream size → Option (BerStream size)
  | [], ber => some ber
  | byte :: bytes, ber => do
      let ber ← ber.encByte byte
      ber.encBytes bytes

end BerStream

/-- Moves the `i` octets behind `position` up by `distance`, the last one first. -/
def moveUp (position distance : Nat) : Nat → Octets → Octets
  | 0, memory => memory
  | i + 1, memory =>
    moveUp position distance i (memory.set (position + (i + 1) + distance) (memory.getD (position + (i + 1)) 0))

def writeLength (length : Nat) : Nat → Nat → Octets → Octets
  | 0, _, memory => memory
  | d + 1, position, memory =>
    writeLength length d (position + 1)
      (memory.set position (UInt8.ofNat (if d + 1 > 2 then 0 else length / 256 ^ d % 256)))

theorem moveUp_length (position distance i : Nat) (memory : Octets) :
    (moveUp position distance i memory).length = memory.length := by
  induction i generalizing memory with
  | zero => rfl
  | succ _ ih => rw [moveUp, ih, length_set]

theorem writeLength_length (length d position : Nat) (memory : Octets) :
    (writeLength length d position memory).length = memory.length := by
  induction d generalizing position memory with
  | zero => rfl
  | succ _ ih => rw [writeLength, ih, length_set]

theorem moveUp_getElem? (position distance : Nat) (positive : 0 < distance) : ∀ i memory,
    position + i + distance < memory.length → ∀ index, (moveUp position distance i memory)[index]? =
      if position + distance < index ∧
        index ≤ position + i + distance then memory[index - distance]? else memory[index]? := by
  intro i
  induction i with
  | zero =>
    intro memory _ index
    rw [moveUp, if_neg (by omega)]
  | succ i ih =>
    intro _ _ index
    rw [moveUp, ih _ (by rw [length_set]; omega) index]
    by_cases last : index = position + (i + 1) + distance
    · subst last
      rw [if_neg (by omega), if_pos (by omega), getElem?_set_self (by omega)]
      rw [show position + (i + 1) + distance - distance = position + (i + 1) by omega, getD_eq_getElem?_getD,
        getElem?_eq_getElem (by omega)]
      rfl
    · by_cases moved : position + distance < index ∧ index ≤ position + i + distance
      · rw [if_pos moved, if_pos (by omega), getElem?_set_ne (by omega)]
      · rw [if_neg moved, if_neg (by omega), getElem?_set_ne (by omega)]

theorem take_set_succ {memory : Octets} {position : Nat} (byte : UInt8) (bound : position < memory.length) :
    (memory.set position byte).take (position + 1) = memory.take position ++ [byte] := by
  rw [set_eq_take_append_cons_drop, if_pos bound, take_append, length_take_of_le (Nat.le_of_lt bound)]
  simp

theorem writeLength_eq (length d position : Nat) (memory : Octets) (room : position + d ≤ memory.length) :
    writeLength length d position memory = memory.take position ++ longLengthOctets d length ++
      memory.drop (position + d) := by
  induction d generalizing position memory with
  | zero => simp [writeLength, longLengthOctets]
  | succ d ih =>
    rw [writeLength, ih _ _ (by rw [length_set]; omega)]
    have back : (memory.set position (UInt8.ofNat (if d + 1 > 2 then 0 else length / 256 ^ d % 256))).drop
      (position + 1 + d) =
        memory.drop (position + (d + 1)) := by
      rw [drop_set_of_lt (by omega)]
      congr 1
      omega
    rw [take_set_succ _ (by omega), back, append_assoc, append_assoc, append_assoc]
    rfl

namespace BerStream

variable {size : Nat}

def encLength (position length : Nat) (ber : BerStream size) : Option (BerStream size) :=
  if length < 0x80 then
    some ⟨ber.memory.set position (UInt8.ofNat length), ber.current, by simp [ber.sized], ber.inside⟩
  else
    let d := lengthOctetCount 4 length
    if room : ber.current + d < size then
      let moved := moveUp position d (ber.current - position - 1) ber.memory
      some ⟨writeLength length d (position + 1) (moved.set position (UInt8.ofNat (0x80 + d))), ber.current + d,
        by simp [writeLength_length, moved, moveUp_length, ber.sized], Nat.le_of_lt room⟩
    else none

def encSequenceStart (tag : UInt8) (ber : BerStream size) : Option (BerStream size × Nat) := do
  let ber ← ber.encByte tag
  let token := ber.current
  let ber ← ber.encByte 0
  return (ber, token)

def encSequenceEnd (token : Nat) (ber : BerStream size) : Option (BerStream size) :=
  ber.encLength token (ber.current - (token + 1))

def encContent (tag : UInt8) (content : Octets) (ber : BerStream size) : Option (BerStream size) := do
  let ber ← ber.encByte tag
  let length := ber.current
  let ber ← ber.encByte 0
  let ber ← ber.encBytes content
  ber.encLength length content.length

theorem encByte_octets (byte : UInt8) (ber : BerStream size) :
    (ber.encByte byte).map octets = tnmBerEncByte size byte ber.octets := by
  rw [encByte, tnmBerEncByte, octets_length]
  split
  next room =>
    rw [if_neg (by omega)]
    exact congrArg some (take_set_succ byte (by rw [ber.sized]; exact room))
  next full =>
    rw [if_pos (by omega)]
    rfl

theorem encBytes_octets (bytes : Octets) (ber : BerStream size) :
    (ber.encBytes bytes).map octets = tnmBerEncBytes size bytes ber.octets := by
  induction bytes generalizing ber with
  | nil => rfl
  | cons byte _ ih =>
    rw [encBytes, tnmBerEncBytes, ← encByte_octets]
    cases ber.encByte byte with
    | none => rfl
    | some next => exact ih next

theorem moved_octets {ber : BerStream size} {position d : Nat} (length : Nat) (behind : position < ber.current)
    (positive : 0 < d)
    (room : ber.current + d < size) : (writeLength length d (position + 1)
      ((moveUp position d (ber.current - position - 1) ber.memory).set position (UInt8.ofNat (0x80 + d)))).take
        (ber.current + d) =
      ber.octets.take position ++ UInt8.ofNat (0x80 + d) :: longLengthOctets d length ++
        ber.octets.drop (position + 1) := by
  have sized := ber.sized
  have moved := moveUp_getElem? position d positive (ber.current - position - 1) ber.memory (by omega)
  have movedLength := moveUp_length position d (ber.current - position - 1) ber.memory
  rw [writeLength_eq _ _ _ _ (by rw [length_set]; omega)]
  have front : ((moveUp position d (ber.current - position - 1) ber.memory).set position (UInt8.ofNat (0x80 + d))).take
    (position + 1) =
      ber.octets.take position ++ [UInt8.ofNat (0x80 + d)] := by
    rw [take_set_succ _ (by omega), octets, take_take, Nat.min_eq_left (by omega)]
    congr 1
    apply ext_getElem?
    intro index
    rw [getElem?_take, getElem?_take, moved]
    split
    · rw [if_neg (by omega)]
    · rfl
  have back : (((moveUp position d (ber.current - position - 1) ber.memory).set position (UInt8.ofNat (0x80 + d))).drop
      (position + 1 + d)).take (ber.current - (position + 1)) = ber.octets.drop (position + 1) := by
    rw [octets, drop_take]
    apply ext_getElem?
    intro index
    rw [getElem?_take, getElem?_take]
    split
    · rw [getElem?_drop, getElem?_set_ne (by omega), moved, if_pos (by omega), getElem?_drop]
      congr 1
      omega
    · rfl
  rw [append_assoc, take_append, front, take_of_length_le
    (by rw [length_append, length_take, length_singleton]; omega)]
  have frontLength : (ber.octets.take position ++ [UInt8.ofNat (0x80 + d)]).length = position + 1 := by
    rw [length_append, length_take_of_le (by rw [octets_length]; omega), length_singleton]
  have tail : ∀ rest : Octets, (longLengthOctets d length ++ rest).take (ber.current + d - (position + 1)) =
      longLengthOctets d length ++ rest.take (ber.current - (position + 1)) := by
    intro _
    rw [take_append, take_of_length_le (by rw [longLengthOctets_length]; omega), longLengthOctets_length]
    congr 2
    omega
  rw [frontLength, tail, back]
  simp

theorem encLength_octets {position : Nat} (length : Nat) {ber : BerStream size} (behind : position < ber.current) :
    (ber.encLength position length).map octets = tnmBerEncLength size position length ber.octets := by
  rw [encLength, tnmBerEncLength]
  split
  next short =>
    rw [Option.map_some, octets, octets, take_set]
  next long =>
    have positive : 0 < lengthOctetCount 4 length := by
      rw [lengthOctetCount, if_neg (by omega)]
      omega
    simp only [octets_length]
    split
    next room =>
      rw [if_neg (by omega)]
      exact congrArg some (moved_octets length behind positive room)
    next full =>
      rw [if_pos (by omega)]
      rfl

end BerStream

end Tnm
