import TkinedRemix.Snmp.BerInteger
import TkinedRemix.Snmp.BerPointer

/-!
What `TnmBerDecOID` reads and writes. A sub-identifier can start one element behind the array and can end behind
the declared length; its 32 bits are not looked at.
-/

namespace Tnm

open Lib List

def isLast (octet : UInt8) : Bool := decide (octet.toNat ≤ 0x7f)

def AllLong (octets : Octets) : Prop := ∀ octet ∈ octets, isLast octet = false

theorem allLong_countP {octets : Octets} (long : AllLong octets) : octets.countP isLast = 0 := by
  rw [countP_eq_zero]
  intro octet member
  rw [long octet member]
  exact Bool.false_ne_true

theorem allLong_getD {octets : Octets} {index : Nat} (long : AllLong octets) (small : index < octets.length) :
    isLast (octets.getD index 0) = false := by
  rw [getD_eq_getElem?_getD, getElem?_eq_getElem small]
  exact long _ (getElem_mem small)

section

variable {init rest : Octets} {last : UInt8} {len : Nat}

theorem take_inside (long : AllLong init) (inside : len ≤ init.length + 1) :
    ((init ++ last :: rest).take (len - 1)).countP isLast = 0 := by
  rw [take_append_of_le_length (by omega)]
  exact allLong_countP fun octet member => long octet (mem_of_mem_take member)

theorem take_behind (long : AllLong init) (short : isLast last = true) (behind : init.length + 1 < len) :
    ((init ++ last :: rest).take (len - 1)).countP isLast = (rest.take (len - (init.length + 1) - 1)).countP isLast +
      1 := by
  rw [take_append, take_of_length_le (by omega),
    show len - 1 - init.length = len - (init.length + 1) - 1 + 1 by omega, take_succ_cons, countP_append,
    allLong_countP long, countP_cons, if_pos short, Nat.zero_add]

theorem drop_behind (behind : init.length + 1 < len) :
    (init ++ last :: rest).drop (len - 1) = rest.drop (len - (init.length + 1) - 1) := by
  rw [drop_append, drop_of_length_le (by omega), nil_append,
    show len - 1 - init.length = len - (init.length + 1) - 1 + 1 by omega, drop_succ_cons]

theorem last_mem_drop (inside : len ≤ init.length + 1) : last ∈ (init ++ last :: rest).drop (len - 1) := by
  rw [drop_append_of_le_length (by omega)]
  exact mem_append_right _ mem_cons_self

theorem getD_behind (behind : init.length + 1 < len) :
    (init ++ last :: rest).getD (len - 1) 0 = rest.getD (len - (init.length + 1) - 1) 0 := by
  rw [getD_append_right _ _ _ _ (by omega),
    show len - 1 - init.length = len - (init.length + 1) - 1 + 1 by omega, getD_cons_succ]

theorem isLast_getD_inside (long : AllLong init) (short : isLast last = true) (positive : 0 < len)
    (inside : len ≤ init.length + 1) :
    isLast ((init ++ last :: rest).getD (len - 1) 0) = true ↔ len = init.length + 1 := by
  constructor
  · intro ends
    by_contra less
    rw [getD_append _ _ _ _ (by omega), allLong_getD long (by omega)] at ends
    exact Bool.false_ne_true ends
  · rintro rfl
    rw [Nat.add_sub_cancel, getD_append_right _ _ _ _ (le_rfl), Nat.sub_self]
    exact short

end

namespace TnmBer

variable {ber : Buffer UInt8}

theorem decGroup_outcome (index fuel : Nat) : ∀ (subid used : Nat) (place : Place), ber.Inside place →
    ber.stop - place.current < fuel → (∃ init last result reads, AllLong init ∧ isLast last = true ∧
      ber.ahead place = init ++ last :: ber.ahead ⟨place.current + (init.length + 1), [], []⟩ ∧
      (decGroup index fuel subid used : Pointer ber (Nat × Nat)) place = (some (result, used + (init.length + 1)),
        ⟨place.current + (init.length + 1), reads, place.writes ++ List.replicate (init.length + 1) index⟩)) ∨
    (AllLong (ber.ahead place) ∧ ∃ reads, (decGroup index fuel subid used : Pointer ber (Nat × Nat)) place =
      (none, ⟨ber.stop, reads, place.writes ++ List.replicate (ber.stop - place.current) index⟩)) := by
  induction fuel with
  | zero =>
    omega
  | succ _ ih =>
    intro subid used place inside _
    rw [decGroup_succ]
    by_cases done : ber.stop ≤ place.current
    · have atEnd : place.current = ber.stop := Nat.le_antisymm inside.2 done
      refine .inr ⟨?_, place.reads, ?_⟩
      · intro octet member
        rw [Buffer.ahead, Follows.view_done done] at member
        exact absurd member not_mem_nil
      · rw [← atEnd]
        simp
    · rw [if_neg done, ahead_open ber done]
      have lower := inside.1
      by_cases short : (ber.memory place.current).toNat ≤ 0x7f
      · refine .inl ⟨[], ber.memory place.current, (subid * 128 + (ber.memory place.current).toNat) % 2 ^ 32,
          place.reads ++ [place.current], fun _ member => absurd member not_mem_nil, decide_eq_true short, rfl, ?_⟩
        rw [if_neg (by omega)]
        rfl
      · have long : isLast (ber.memory place.current) = false := decide_eq_false short
        rw [if_pos (by omega)]
        have later := ih ((subid * 128 + (ber.memory place.current).toNat % 128) % 2 ^ 32) (used + 1)
          ⟨place.current + 1, place.reads ++ [place.current], place.writes ++ [index]⟩
          ⟨by simp only; omega, by simp only; omega⟩ (by simp only; omega)
        rcases later with ⟨init, last, result, reads, allLong, ends, shape, outcome⟩ | ⟨allLong, reads, outcome⟩
        · refine .inl ⟨ber.memory place.current :: init, last, result, reads, forall_mem_cons.mpr ⟨long, allLong⟩, ends,
            ?_, ?_⟩
          · simp only [Buffer.ahead, Buffer.view] at shape
            rw [shape, length_cons]
            simp only [Buffer.ahead, Buffer.view, cons_append, show place.current + 1 + (init.length + 1) =
              place.current + (init.length + 1 + 1) by omega]
          · rw [outcome]
            simp only [length_cons, append_assoc, Prod.mk.injEq, Option.some.injEq,
              true_and, Place.mk.injEq]
            exact ⟨by omega, by omega, rfl⟩
        · refine .inr ⟨forall_mem_cons.mpr ⟨long, allLong⟩, reads, ?_⟩
          rw [outcome, show ber.stop - place.current = ber.stop - (place.current + 1) + 1 by omega, append_assoc]
          rfl

theorem oidIndex_extendOid (oid : Oid) (subid : Nat) : oidIndex (extendOid oid subid) = oidIndex oid + 1 := by
  cases oid with
  | nil => rfl
  | cons => simp [oidIndex, extendOid]

theorem extendOid_length (oid : Oid) (subid : Nat) : (extendOid oid subid).length = oidIndex oid + 1 := by
  cases oid with
  | nil => rfl
  | cons => simp [oidIndex, extendOid]

theorem decOidLoop_usedUp {fuel : Nat} {len : Int} {oid : Oid} (usedUp : len ≤ 0) (place : Place) :
    (decOidLoop fuel len oid : Pointer ber (Oid × Int)) place = (some (oid, len), place) := by
  cases fuel with
  | zero => rfl
  | succ =>
    rw [decOidLoop, if_pos usedUp]
    rfl

def firstWrites (oid : Oid) : List Nat := if oid.isEmpty then [0, 1] else []

theorem storeFirst_apply (oid : Oid) (place : Place) :
    (storeFirst oid.isEmpty : Pointer ber Unit) place =
      (some (), { place with writes := place.writes ++ firstWrites oid }) := by
  cases oid with
  | nil => simp [storeFirst, firstWrites, Pointer.bind_apply, Pointer.write]
  | cons => simp [storeFirst, firstWrites, Pointer.pure_apply]

theorem firstWrites_small (oid : Oid) : ∀ index ∈ firstWrites oid, index < tnmOidMaxSize := by
  cases oid with
  | nil => decide
  | cons => simp [firstWrites]

theorem decOidLoop_round (fuel : Nat) {len : Int} (open_ : 0 < len) (oid : Oid) {place : Place}
    (inside : ber.Inside place) :
    (AllLong (ber.ahead place) ∧ ∃ reads, (decOidLoop (fuel + 1) len oid : Pointer ber (Oid × Int)) place =
      (none, ⟨ber.stop, reads, place.writes ++ List.replicate (ber.stop - place.current + 1) (oidIndex oid)⟩)) ∨
    ∃ init last subid reads, AllLong init ∧ isLast last = true ∧
      ber.ahead place = init ++ last :: ber.ahead ⟨place.current + (init.length + 1), [], []⟩ ∧
      (decOidLoop (fuel + 1) len oid : Pointer ber (Oid × Int)) place =
        (let moved : Place := ⟨place.current + (init.length + 1), reads,
          place.writes ++ List.replicate (init.length + 2) (oidIndex oid) ++ firstWrites oid⟩
        if oidIndex oid + 1 ≤ tnmOidMaxSize then
          (decOidLoop fuel (len - ↑(init.length + 1)) (extendOid oid subid) : Pointer ber (Oid × Int)) moved
        else (none, moved)) := by
  have stored : ∀ count, place.writes ++ [oidIndex oid] ++ List.replicate count (oidIndex oid) =
      place.writes ++ List.replicate (count + 1) (oidIndex oid) := by
    intro _
    rw [append_assoc]
    rfl
  rcases decGroup_outcome (oidIndex oid) (ber.stop + 1) 0 0
    { place with writes := place.writes ++ [oidIndex oid] } inside
    (by omega) with ⟨init, last, subid, reads, allLong, ends, shape, outcome⟩ | ⟨allLong, reads, outcome⟩
  · refine .inr ⟨init, last, subid, reads, allLong, ends, shape, ?_⟩
    rw [decOidLoop, if_neg (by omega), Pointer.bind_apply]
    simp only [Pointer.write]
    rw [Pointer.bind_of_some outcome]
    rw [Pointer.bind_of_some (storeFirst_apply oid _), stored, ← extendOid_length oid subid, Nat.zero_add]
    have extended : (if oid.isEmpty = true then splitFirst subid else oid ++ [subid]) = extendOid oid subid := rfl
    simp only [extended]
    by_cases bounded : (extendOid oid subid).length ≤ tnmOidMaxSize
    · rw [if_pos bounded, decide_eq_true bounded]
      rfl
    · rw [if_neg bounded, decide_eq_false bounded]
      rfl
  · refine .inl ⟨allLong, reads, ?_⟩
    rw [decOidLoop, if_neg (by omega), Pointer.bind_apply]
    simp only [Pointer.write]
    rw [Pointer.bind_of_none outcome, stored]

/-- The sub-identifiers that end before the last declared octet, from the element `index` on. -/
def Room (index len : Nat) (data : Octets) : Prop := (data.take (len - 1)).countP isLast + index < tnmOidMaxSize

def EndsInside (len : Nat) (data : Octets) : Prop := len < data.length → isLast (data.getD (len - 1) 0) = true

structure LoopOutcome (index len : Nat) (data : Octets) (place : Place)
    (outcome : Option (Oid × Int) × Place) : Prop where
  writes : ∃ new, outcome.2.writes = place.writes ++ new ∧
    ((∀ element ∈ new, element < tnmOidMaxSize) ↔ Room index len data)
  success : outcome.1.isSome ↔ Room index len data ∧ ∃ octet ∈ data.drop (len - 1), isLast octet = true
  moved : Room index len data → (outcome.2.current ≤ place.current + len ↔ EndsInside len data)

theorem loopOutcome_allLong {index len : Nat} {data : Octets} {reads : List Nat} {place : Place} {stop : Nat}
    (positive : 0 < len)
    (long : AllLong data) (length : data.length = stop - place.current) (inside : place.current ≤ stop) :
    LoopOutcome index len data place
      (none, ⟨stop, reads, place.writes ++ List.replicate (stop - place.current + 1) index⟩) := by
  have none_ends : (data.take (len - 1)).countP isLast = 0 :=
    allLong_countP fun octet member => long octet (mem_of_mem_take member)
  refine ⟨⟨_, rfl, ?_⟩, ?_, ?_⟩
  · rw [Room, none_ends]
    simp
  · simp only [Option.isSome_none, Bool.false_eq_true, false_iff, not_and, not_exists]
    rintro _ octet member
    rw [long octet (mem_of_mem_drop member)]
    exact Bool.false_ne_true
  · intro _
    simp only [EndsInside]
    constructor
    · omega
    · intro ends
      by_contra far
      have last := ends (by omega)
      rw [allLong_getD long (by omega)] at last
      exact Bool.false_ne_true last

section

variable {index len : Nat} {init rest : Octets} {last : UInt8} {place : Place} {reads first : List Nat}

theorem loopOutcome_full (full : ¬ index + 1 ≤ tnmOidMaxSize) :
    LoopOutcome index len (init ++ last :: rest) place (none, ⟨place.current + (init.length + 1), reads,
      place.writes ++ List.replicate (init.length + 2) index ++ first⟩) := by
  have noRoom : ¬ Room index len (init ++ last :: rest) := by
    rw [Room]
    omega
  refine ⟨⟨List.replicate (init.length + 2) index ++ first, by simp, ?_⟩, ?_, fun room => absurd room noRoom⟩
  · refine iff_of_false ?_ noRoom
    intro small
    have stored := small index (mem_append_left _ (mem_replicate.mpr ⟨by omega, rfl⟩))
    omega
  · exact iff_of_false (by simp) fun both => noRoom both.1

theorem loopOutcome_usedUp {result : Oid × Int} (bounded : index + 1 ≤ tnmOidMaxSize)
    (small : ∀ element ∈ first, element < tnmOidMaxSize) (long : AllLong init) (short : isLast last = true)
    (positive : 0 < len) (usedUp : len ≤ init.length + 1) :
    LoopOutcome index len (init ++ last :: rest) place (some result, ⟨place.current + (init.length + 1), reads,
      place.writes ++ List.replicate (init.length + 2) index ++ first⟩) := by
  have room : Room index len (init ++ last :: rest) := by
    rw [Room, take_inside long usedUp]
    omega
  refine ⟨⟨List.replicate (init.length + 2) index ++ first, by simp, ?_⟩, ?_, ?_⟩
  · refine iff_of_true ?_ room
    intro element member
    rcases mem_append.mp member with stored | other
    · rw [(mem_replicate.mp stored).2]
      omega
    · exact small element other
  · exact iff_of_true rfl ⟨room, last, last_mem_drop usedUp, short⟩
  · intro _
    simp only [EndsInside, length_append, length_cons, isLast_getD_inside long short positive usedUp]
    constructor
    · omega
    · intro ends
      by_contra far
      omega

theorem loopOutcome_more {outcome : Option (Oid × Int) × Place} (bounded : index + 1 ≤ tnmOidMaxSize)
    (small : ∀ element ∈ first, element < tnmOidMaxSize) (long : AllLong init) (short : isLast last = true)
    (more : init.length + 1 < len)
    (later : LoopOutcome (index + 1) (len - (init.length + 1)) rest ⟨place.current + (init.length + 1), reads,
      place.writes ++ List.replicate (init.length + 2) index ++ first⟩ outcome) :
    LoopOutcome index len (init ++ last :: rest) place outcome := by
  have room : Room index len (init ++ last :: rest) ↔ Room (index + 1) (len - (init.length + 1)) rest := by
    rw [Room, Room, take_behind long short more]
    omega
  have ends : EndsInside len (init ++ last :: rest) ↔ EndsInside (len - (init.length + 1)) rest := by
    rw [EndsInside, EndsInside, getD_behind more, length_append, length_cons,
      show len < init.length + (rest.length + 1) ↔ len - (init.length + 1) < rest.length by omega]
  obtain ⟨⟨new, written, safe⟩, success, moved⟩ := later
  refine ⟨⟨List.replicate (init.length + 2) index ++ (first ++ new), by simp [written], ?_⟩, ?_, ?_⟩
  · rw [room, ← safe]
    constructor
    · intro all element member
      exact all element (mem_append_right _ (mem_append_right _ member))
    · intro all element member
      rcases mem_append.mp member with stored | other
      · rw [(mem_replicate.mp stored).2]
        omega
      · rcases mem_append.mp other with early | late
        · exact small element early
        · exact all element late
  · rw [success, room, drop_behind more]
  · intro isRoom
    rw [ends, ← moved (room.mp isRoom)]
    simp only
    omega

end

theorem decOidLoop_outcome (fuel : Nat) : ∀ (len : Nat) (oid : Oid) (place : Place), 0 < len → len ≤ fuel →
    oidIndex oid ≤ tnmOidMaxSize → ber.Inside place →
    LoopOutcome (oidIndex oid) len (ber.ahead place) place
      ((decOidLoop fuel len oid : Pointer ber (Oid × Int)) place) := by
  induction fuel with
  | zero =>
    omega
  | succ fuel ih =>
    intro len oid place positive _ _ inside
    rcases decOidLoop_round fuel (by omega : 0 < (len : Int)) oid inside with ⟨long, reads, outcome⟩ |
      ⟨init, last, subid, reads, long, short, shape, outcome⟩
    · rw [outcome]
      exact loopOutcome_allLong positive long (ahead_length ber place) inside.2
    · rw [outcome, shape]
      by_cases room : oidIndex oid + 1 ≤ tnmOidMaxSize
      · rw [if_pos room]
        by_cases usedUp : len ≤ init.length + 1
        · rw [decOidLoop_usedUp (by omega)]
          exact loopOutcome_usedUp room (firstWrites_small oid) long short positive usedUp
        · have later := ih (len - (init.length + 1)) (extendOid oid subid) ⟨place.current + (init.length + 1), reads,
            place.writes ++ List.replicate (init.length + 2) (oidIndex oid) ++ firstWrites oid⟩ (by omega) (by omega)
            (by rw [oidIndex_extendOid]; exact room) ?_
          · rw [oidIndex_extendOid, Nat.cast_sub (by omega)] at later
            exact loopOutcome_more room (firstWrites_small oid) long short (by omega) later
          · have lengths := congrArg List.length shape
            rw [ahead_length ber, length_append, length_cons] at lengths
            have bounds := inside
            exact ⟨Nat.le_trans bounds.1 (Nat.le_add_right _ _), by simp only; omega⟩
      · rw [if_neg room]
        exact loopOutcome_full room

section

variable {related : Place → Place → Prop} [Std.Refl related] [IsTrans Place related]
  (item : Keeps related (Pointer.item : Pointer ber UInt8))
include item

theorem decTag_keeps (tag : UInt8) : Keeps related (decTag tag : Pointer ber Unit) := item.bind fun _ => .check _

theorem decLengthLoop_keeps (left : Nat) : ∀ length, Keeps related (decLengthLoop left length : Pointer ber Nat) := by
  induction left with
  | zero => exact fun length => .pure length
  | succ _ ih => exact fun length => item.bind fun _ => (Keeps.check _).bind fun _ => ih _

theorem decLength_keeps : Keeps related (decLength : Pointer ber Nat) :=
  item.bind fun _ => .ite (.pure _)
    ((decLengthLoop_keeps item _ _).bind fun _ => (Keeps.check _).bind fun _ => .pure _)

end

theorem decGroup_scans (index fuel : Nat) : ∀ subid used,
    Keeps Scanned (decGroup index fuel subid used : Pointer ber (Nat × Nat)) := by
  induction fuel with
  | zero => exact fun _ _ => .fail
  | succ _ ih =>
    intro _ _
    exact Scanned.item.bind fun _ => (Scanned.write _).bind fun _ => .ite (ih _ _) (.pure _)

theorem decOidLoop_scans (fuel : Nat) :
    ∀ len oid, Keeps Scanned (decOidLoop fuel len oid : Pointer ber (Oid × Int)) := by
  induction fuel with
  | zero => exact fun _ _ => .pure _
  | succ _ ih =>
    intro _ _
    refine .ite (.pure _) ((Scanned.write _).bind fun _ => (decGroup_scans _ _ _ _).bind fun _ => ?_)
    refine Keeps.bind ?_ fun _ => (Keeps.check _).bind fun _ => ih _ _
    exact .ite ((Scanned.write 0).bind fun _ => Scanned.write 1) (.pure ())

theorem decOID_scans : Keeps Scanned (decOID : Pointer ber Oid) :=
  (decTag_keeps Scanned.item _).bind fun _ => (decLength_keeps Scanned.item).bind fun _ => (Keeps.check _).bind fun _ =>
    (decOidLoop_scans _ _ _).bind fun _ => .pure _

theorem decByte_outcome {place moved : Place} {byte : UInt8}
    (outcome : (decByte : Pointer ber UInt8) place = (some byte, moved)) :
    byte = ber.memory place.current ∧ moved.current = place.current + 1 := by
  rw [decByte, Pointer.item] at outcome
  split at outcome
  next => cases outcome
  next =>
    cases outcome
    exact ⟨rfl, rfl⟩

theorem decByte_reaches (place : Place) : ((decByte : Pointer ber UInt8) place).2.current ≤ place.current + 1 := by
  rw [decByte, Pointer.item]
  split
  next => exact Nat.le_succ _
  next => exact le_rfl

theorem check_bind_reaches {α : Type} {passes : Bool} {next : Unit → Pointer ber α} {place : Place} {bound : Nat}
    (here : place.current ≤ bound) (later : (next () place).2.current ≤ bound) :
    ((Pointer.check passes >>= next) place).2.current ≤ bound := by
  have stays : ((Pointer.check passes : Pointer ber Unit) place).2 = place := Pointer.check_stays passes place
  refine Pointer.bind_reaches (by rw [stays]; exact here) fun _ moved outcome => ?_
  rw [outcome] at stays
  rw [show moved = place from stays]
  exact later

theorem decLengthLoop_reaches (left : Nat) : ∀ length place,
    ((decLengthLoop left length : Pointer ber Nat) place).2.current ≤ place.current + left := by
  induction left with
  | zero => exact fun _ _ => le_rfl
  | succ _ ih =>
    intro _ place
    refine Pointer.bind_reaches ?_ fun byte moved outcome => ?_
    · exact Nat.le_trans (decByte_reaches place) (by omega)
    · obtain ⟨_, _⟩ := decByte_outcome outcome
      exact check_bind_reaches (by omega) (Nat.le_trans (ih _ moved) (by omega))

theorem decLength_reaches {lengthOctets body : Octets} {length : Nat} {place : Place}
    (shape : ber.ahead place = lengthOctets ++ body) (declared : BerLength lengthOctets length) :
    ((decLength : Pointer ber Nat) place).2.current ≤ place.current + lengthOctets.length := by
  obtain ⟨first, others, rfl, count⟩ : ∃ (first : UInt8) (others : Octets), lengthOctets = first :: others ∧
      (first.toNat < 0x80 ∨ first.toNat = 0x80 + others.length) := by
    rcases declared with ⟨octet, rfl, short, rfl⟩ | ⟨first, others, rfl, _, count, rfl⟩
    · exact ⟨octet, [], rfl, .inl short⟩
    · exact ⟨first, others, rfl, .inr count⟩
  refine Pointer.bind_reaches (Nat.le_trans (decByte_reaches place) (by simp)) fun byte moved outcome => ?_
  obtain ⟨isFirst, _⟩ := decByte_outcome outcome
  have same : byte = first := by
    have nonempty : ¬ ber.stop ≤ place.current := fun done => by
      have lengths := congrArg List.length shape
      rw [ahead_length ber, cons_append, length_cons] at lengths
      omega
    rw [ahead_open ber nonempty, cons_append, List.cons.injEq] at shape
    exact isFirst.trans shape.1
  rw [same, length_cons]
  split
  next =>
    rw [Pointer.pure_apply]
    simp only
    omega
  next long =>
    have loop := @decLengthLoop_reaches ber (first.toNat - 0x80) 0 moved
    refine Pointer.bind_reaches (Nat.le_trans loop (by omega)) fun value last outcome => ?_
    rw [outcome] at loop
    exact check_bind_reaches (Nat.le_trans loop (by omega)) (Nat.le_trans loop (by omega))

theorem decOID_cases {place : Place} (inside : ber.Inside place) :
    (∃ lengthOctets len moved, DefiniteLength lengthOctets len ∧ 0 < len ∧
      ber.ahead place = asn1ObjectIdentifier :: (lengthOctets ++ ber.ahead moved) ∧
      moved.current = place.current + (lengthOctets.length + 1) ∧ moved.writes = place.writes ∧ ber.Inside moved ∧
      (decOID : Pointer ber Oid) place = (((decOidLoop len len [] : Pointer ber _) moved).1.map Prod.fst,
        ((decOidLoop len len [] : Pointer ber _) moved).2)) ∨
    (∀ lengthOctets body len, ber.ahead place = asn1ObjectIdentifier :: (lengthOctets ++ body) →
      BerLength lengthOctets len →
      (0 < len → 2 ^ 31 ≤ len) ∧ ((decOID : Pointer ber Oid) place).2.current ≤ place.current +
        (lengthOctets.length + 1)) ∧
      ((decOID : Pointer ber Oid) place).1 = none ∧ ((decOID : Pointer ber Oid) place).2.writes = place.writes := by
  have tagQuiet := decTag_keeps (@SameWrites.item _ ber) asn1ObjectIdentifier place
  rcases tagged : (decTag asn1ObjectIdentifier : Pointer ber Unit) place with ⟨_ | _, first⟩
  · rw [tagged] at tagQuiet
    rw [decOID, Pointer.bind_of_none tagged]
    refine .inr ⟨?_, rfl, tagQuiet⟩
    intro lengthOctets body len shape _
    have found : ((decTag asn1ObjectIdentifier : Pointer ber Unit) place).1 = some () :=
      ((decTag_follows _).complete (decTag_reads _) inside (shape.trans singleton_append.symm) ⟨rfl, rfl⟩).1
    rw [tagged] at found
    cases found
  · obtain ⟨_, _, shape, current, firstInside, rfl, _⟩ :=
      (decTag_follows asn1ObjectIdentifier).sound (decTag_reads asn1ObjectIdentifier) inside tagged
    rw [tagged] at tagQuiet
    have lengthQuiet := (decLength_keeps (@SameWrites.item _ ber) first).trans tagQuiet
    have behind : ∀ lengthOctets body len, ber.ahead place = asn1ObjectIdentifier :: (lengthOctets ++ body) →
        BerLength lengthOctets len → (len < 2 ^ 31 → ((decLength : Pointer ber Nat) first).1 = some len) ∧
          ((decLength : Pointer ber Nat) first).2.current ≤ place.current + (lengthOctets.length + 1) := by
      intro lengthOctets body len declaredShape declared
      have same : ber.ahead first = lengthOctets ++ body := (cons.inj (shape.symm.trans declaredShape)).2
      refine ⟨?_, Nat.le_trans (decLength_reaches same declared) (by rw [current]; simp; omega)⟩
      intro small
      exact (decLength_follows.complete tnmBerDecLength_reads firstInside same
        (.inl ⟨definiteLength_iff.mpr ⟨declared, small⟩, rfl⟩)).1
    rcases lengthRead : (decLength : Pointer ber Nat) first with ⟨_ | len, second⟩
    · rw [decOID, Pointer.bind_of_some tagged, Pointer.bind_of_none lengthRead]
      rw [lengthRead] at lengthQuiet behind
      refine .inr ⟨?_, rfl, lengthQuiet⟩
      intro lengthOctets body len declaredShape declared
      obtain ⟨found, reaches⟩ := behind lengthOctets body len declaredShape declared
      exact ⟨fun _ => Nat.le_of_not_lt fun small => (nomatch found small), reaches⟩
    · obtain ⟨lengthOctets, _, lengthShape, moved, secondInside, format⟩ :=
        decLength_follows.sound tnmBerDecLength_reads firstInside lengthRead
      rw [lengthRead] at lengthQuiet behind
      rw [decOID, Pointer.bind_of_some tagged, Pointer.bind_of_some lengthRead]
      by_cases zero : len = 0
      · refine .inr ⟨?_, by rw [zero]; rfl, by rw [zero]; exact lengthQuiet⟩
        intro lengthOctets body other declaredShape declared
        obtain ⟨found, reaches⟩ := behind lengthOctets body other declaredShape declared
        refine ⟨fun positive => Nat.le_of_not_lt fun small => ?_, by rw [zero]; exact reaches⟩
        have same : len = other := Option.some.inj (found small)
        omega
      · rcases format with ⟨definite, _⟩ | ⟨_, isZero, _⟩
        · refine .inl ⟨lengthOctets, len, second, definite, Nat.pos_of_ne_zero zero, ?_, ?_, lengthQuiet,
            secondInside, ?_⟩
          · rw [shape, lengthShape]
            rfl
          · rw [moved, current, length_singleton]
            omega
          · rw [decide_eq_true zero]
            simp only [Pointer.check, if_true, Pointer.bind_apply, Pointer.pure_apply]
            rcases (decOidLoop len len [] : Pointer ber (Oid × Int)) second with ⟨_ | ⟨_, _⟩, _⟩ <;> rfl
        · exact absurd isZero zero

end TnmBer

def groupNumbers : Nat → Octets → List Nat
  | _, [] => []
  | number, octet :: rest =>
    if octet.toNat ≤ 0x7f then (number * 128 + octet.toNat) :: groupNumbers 0 rest
    else groupNumbers (number * 128 + octet.toNat % 128) rest

def encodedOid (content : Octets) : List Nat :=
  match groupNumbers 0 content with
  | [] => []
  | first :: others => splitFirst first ++ others

structure DecodesOidSafely (ber : Buffer UInt8) (current : Nat) : Prop where
  writes : ∀ index ∈ ((TnmBer.decOID : Pointer ber Oid) ⟨current, [], []⟩).2.writes, index < tnmOidMaxSize
  reads : ∀ lengthOctets body len, ber.ahead ⟨current, [], []⟩ = asn1ObjectIdentifier :: (lengthOctets ++ body) →
    BerLength lengthOctets len → ∀ address ∈ ((TnmBer.decOID : Pointer ber Oid) ⟨current, [], []⟩).2.reads,
      address < current + (lengthOctets.length + 1) + len
  rejects : ∀ lengthOctets body len, ber.ahead ⟨current, [], []⟩ = asn1ObjectIdentifier :: (lengthOctets ++ body) →
    BerLength lengthOctets len → (∃ subid ∈ encodedOid (body.take len), 2 ^ 32 ≤ subid) →
      ((TnmBer.decOID : Pointer ber Oid) ⟨current, [], []⟩).1 = none

theorem declared_unique {tag : UInt8} {lengthOctets body other otherBody : Octets} {len otherLen : Nat}
    (definite : DefiniteLength lengthOctets len) (declared : BerLength other otherLen)
    (same : tag :: (other ++ otherBody) = tag :: (lengthOctets ++ body)) :
    other = lengthOctets ∧ otherBody = body ∧ otherLen = len := by
  have tails := (cons.inj same).2
  obtain ⟨rfl, rfl⟩ := berLength_unique declared definite tails
  exact ⟨rfl, append_cancel_left tails, rfl⟩

/-- At most 127 groups, the last of which ends with the length, and no more than 32 bits in each. -/
def OidConforms (data : Octets) : Prop :=
  ∀ lengthOctets body len, data = asn1ObjectIdentifier :: (lengthOctets ++ body) → BerLength lengthOctets len →
    0 < len →
    len < 2 ^ 31 → TnmBer.Room 1 len body ∧ TnmBer.EndsInside len body ∧
      (len ≤ body.length → isLast (body.getD (len - 1) 0) = true → ∀ subid ∈ encodedOid (body.take len), subid < 2 ^ 32)

theorem ends_iff {len : Nat} {data : Octets} (positive : 0 < len) (inside : TnmBer.EndsInside len data) :
    (∃ octet ∈ data.drop (len - 1), isLast octet = true) ↔ len ≤ data.length ∧
      isLast (data.getD (len - 1) 0) = true := by
  constructor
  · rintro ⟨_, member, short⟩
    have nonempty := length_pos_of_mem member
    rw [length_drop] at nonempty
    refine ⟨by omega, ?_⟩
    by_cases beyond : len < data.length
    · exact inside beyond
    · have single : data.drop (len - 1) = [data.getD (len - 1) 0] := by
        rw [drop_eq_getElem_cons (by omega), drop_of_length_le (by omega), getD_eq_getElem _ _ (by omega)]
      rw [single, mem_singleton] at member
      rwa [← member]
  · rintro ⟨_, short⟩
    refine ⟨_, ?_, short⟩
    rw [getD_eq_getElem _ _ (by omega), drop_eq_getElem_cons (by omega)]
    exact mem_cons_self

theorem tnmBerDecOID_safe_iff (ber : Buffer UInt8) (current : Nat) (inside : ber.start ≤ current ∧ current ≤ ber.stop) :
    DecodesOidSafely ber current ↔ OidConforms (ber.ahead ⟨current, [], []⟩) := by
  have scans := (@TnmBer.decOID_scans ber ⟨current, [], []⟩).reads
  rcases @TnmBer.decOID_cases ber ⟨current, [], []⟩ inside with
    ⟨lengthOctets, len, moved, definite, positive, shape, start, quiet, movedInside, outcome⟩ | ⟨refused, fails, quiet⟩
  · have unique : ∀ other body otherLen, ber.ahead ⟨current, [], []⟩ = asn1ObjectIdentifier :: (other ++ body) →
        BerLength other otherLen → other = lengthOctets ∧ body = ber.ahead moved ∧ otherLen = len :=
      fun other body otherLen otherShape declared => declared_unique definite declared (otherShape.symm.trans shape)
    obtain ⟨⟨_, written, safe⟩, success, reaches⟩ :=
      TnmBer.decOidLoop_outcome len len [] moved positive (le_rfl) (by decide) movedInside
    rw [quiet] at written
    rw [outcome] at scans
    simp only [nil_append] at scans start
    constructor
    · intro safely other body otherLen otherShape declared _ _
      obtain ⟨rfl, rfl, rfl⟩ := unique other body otherLen otherShape declared
      have room : TnmBer.Room 1 otherLen (ber.ahead moved) := by
        refine safe.mp fun index member => safely.writes index ?_
        rw [outcome, written]
        exact member
      have ends : TnmBer.EndsInside otherLen (ber.ahead moved) := by
        refine (reaches room).mp (Nat.le_of_not_lt fun far => ?_)
        have bound := safely.reads other _ otherLen otherShape declared (moved.current + otherLen) (by
          rw [outcome, scans, mem_range'_1]
          omega)
        omega
      refine ⟨room, ends, fun whole short subid member => Nat.lt_of_not_le fun large => ?_⟩
      have fails := safely.rejects other _ otherLen otherShape declared ⟨subid, member, large⟩
      have accepted := success.mpr ⟨room, (ends_iff positive ends).mpr ⟨whole, short⟩⟩
      rw [outcome, Option.map_eq_none_iff] at fails
      rw [fails] at accepted
      cases accepted
    · intro conforms
      obtain ⟨declared, small⟩ := definiteLength_iff.mp definite
      obtain ⟨room, ends, fits⟩ := conforms lengthOctets _ len shape declared positive small
      refine ⟨?_, ?_, ?_⟩
      · intro index member
        rw [outcome, written] at member
        exact safe.mpr room index member
      · intro other body otherLen otherShape otherDeclared address member
        obtain ⟨rfl, rfl, rfl⟩ := unique other body otherLen otherShape otherDeclared
        have bound := (reaches room).mpr ends
        rw [outcome, scans, mem_range'_1] at member
        omega
      · rintro other body otherLen otherShape otherDeclared ⟨subid, member, large⟩
        obtain ⟨rfl, rfl, rfl⟩ := unique other body otherLen otherShape otherDeclared
        rw [outcome, Option.map_eq_none_iff, ← Option.not_isSome_iff_eq_none]
        intro accepted
        obtain ⟨whole, short⟩ := (ends_iff positive ends).mp (success.mp accepted).2
        have bound := fits whole short subid member
        omega
  · refine iff_of_true ⟨?_, ?_, ?_⟩ ?_
    · rw [quiet]
      exact nofun
    · intro lengthOctets body len shape declared _ member
      have reaches := (refused lengthOctets body len shape declared).2
      rw [scans, nil_append, mem_range'_1] at member
      simp only at member reaches
      omega
    · exact fun _ _ _ _ _ _ => fails
    · intro lengthOctets body len shape declared positive _
      have large := (refused lengthOctets body len shape declared).1 positive
      omega

def packetBuffer (octets : Octets) : Buffer UInt8 := ⟨fun address => octets.getD address 0, 0, octets.length⟩

theorem tnmBerDecOID_safe_example : DecodesOidSafely (packetBuffer [0x06, 0x03, 0x2b, 0x06, 0x01]) 0 := by
  refine (tnmBerDecOID_safe_iff _ 0 (by decide)).mpr ?_
  intro lengthOctets body _ shape declared _ _
  have octets : [0x06, 0x03, 0x2b, 0x06, 0x01] = asn1ObjectIdentifier :: (lengthOctets ++ body) := shape
  rcases declared with ⟨_, rfl, _, rfl⟩ | ⟨_, _, rfl, _, count, _⟩
  · obtain ⟨_, rfl, rfl⟩ := octets
    exact ⟨by rw [TnmBer.Room]; decide, by rw [TnmBer.EndsInside]; decide, fun _ _ => by decide⟩
  · simp only [cons_append, List.cons.injEq] at octets
    rw [← octets.2.1] at count
    have three : (3 : UInt8).toNat = 3 := rfl
    omega

/-- 128 groups, a group behind the declared length, and a sub-identifier of 33 bits. -/
theorem tnmBerDecOID_unsafe : ¬ DecodesOidSafely (packetBuffer ([0x06, 0x81, 0x80] ++ List.replicate 128 1)) 0 ∧
    ¬ DecodesOidSafely (packetBuffer [0x06, 0x01, 0x81, 0x01]) 0 ∧
    ¬ DecodesOidSafely (packetBuffer [0x06, 0x06, 0x2b, 0x90, 0x80, 0x80, 0x80, 0x00]) 0 := by
  refine ⟨fun safely => ?_, fun safely => ?_, fun safely => ?_⟩
  · exact absurd (safely.writes 128 (by decide +kernel)) (by decide)
  · have bound :=
      safely.reads [0x01] [0x81, 0x01] 1 (by decide) (.inl ⟨0x01, rfl, by decide, rfl⟩) 3 (by decide +kernel)
    exact absurd bound (by decide)
  · have fails := safely.rejects [0x06] [0x2b, 0x90, 0x80, 0x80, 0x80, 0x00] 6 (by decide)
      (.inl ⟨0x06, rfl, by decide, rfl⟩) ⟨2 ^ 32, by decide +kernel, le_rfl⟩
    exact absurd fails (by decide +kernel)

end Tnm
