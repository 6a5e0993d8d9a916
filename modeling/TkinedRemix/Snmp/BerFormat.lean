import TkinedRemix.Snmp.BerCore

/-!
The formats that the BER decoder accepts. They deviate for the length octet 0x80, a NULL with a length, and an
object identifier that runs over its length.
-/

namespace Tnm

open Lib List

abbrev BerFormat := Format UInt8

def bigEndian (octets : Octets) : Nat := octets.foldl (fun value octet => value * 256 + octet.toNat) 0

def DefiniteLength (octets : Octets) (length : Nat) : Prop :=
  (∃ octet : UInt8, octets = [octet] ∧ octet.toNat < 0x80 ∧ length = octet.toNat) ∨
    ∃ (first : UInt8) (rest : Octets), octets = first :: rest ∧ rest ≠ [] ∧
      first.toNat = 0x80 + rest.length ∧ length = bigEndian rest ∧ length < 2 ^ 31

def lengthFormat : BerFormat Nat := fun _ consumed _ length deviates =>
  (DefiniteLength consumed length ∧ deviates = false) ∨
    (consumed = [0x80] ∧ length = 0 ∧ deviates = true)

def tagFormat (tag : UInt8) : BerFormat Unit := fun _ consumed _ _ deviates =>
  consumed = [tag] ∧ deviates = false

theorem decTag_reads (tag : UInt8) : Reads (decTag tag) (tagFormat tag) := by
  refine (Reads.bind .item fun byte => Reads.check (byte == tag)).congr ?_
  intro _ _ _ _ _
  simp only [Format.item_bind, Format.check_apply, beq_iff_eq]
  constructor
  · rintro ⟨rfl, rfl⟩
    exact ⟨tag, [], rfl, rfl, rfl, rfl⟩
  · rintro ⟨_, _, rfl, rfl, rfl, rfl⟩
    exact ⟨rfl, rfl⟩

theorem tag_bind {β : Type} (tag : UInt8) (next : Unit → BerFormat β) (pos : Nat) (consumed rest : Octets)
    (result : β) (deviates : Bool) : (tagFormat tag >>= next) pos consumed rest result deviates ↔
      ∃ back, consumed = tag :: back ∧ next () (pos + 1) back rest result deviates := by
  constructor
  · rintro ⟨_, back, _, _, _, rfl, ⟨rfl, rfl⟩, tail, rfl⟩
    exact ⟨back, rfl, by simpa using tail⟩
  · rintro ⟨back, rfl, tail⟩
    exact ⟨[tag], back, (), false, deviates, rfl, ⟨rfl, rfl⟩, tail, by simp⟩

theorem bigEndian_cons (octet : UInt8) (octets : Octets) :
    bigEndian (octet :: octets) = octet.toNat * 256 ^ octets.length + bigEndian octets := by
  have general : ∀ (list : Octets) (start : Nat),
      list.foldl (fun value octet => value * 256 + octet.toNat) start =
        start * 256 ^ list.length + bigEndian list := by
    intro list
    induction list with
    | nil => simp [bigEndian]
    | cons head _ ih =>
      intro _
      simp only [bigEndian, foldl_cons, length_cons, Nat.zero_mul, Nat.zero_add]
      rw [ih, ih head.toNat]
      ring
  simpa [bigEndian] using general octets octet.toNat

theorem bigEndian_lt (octets : Octets) : bigEndian octets < 256 ^ octets.length := by
  induction octets with
  | nil => simp [bigEndian]
  | cons octet =>
    rw [bigEndian_cons, length_cons, Nat.pow_succ]
    have bound := octet.toNat_lt
    nlinarith

def LeadingZeros : Octets → Prop
  | [] => True
  | octet :: rest => (4 < rest.length + 1 → octet = 0) ∧ LeadingZeros rest

theorem leadingZeros_iff (octets : Octets) : LeadingZeros octets ↔ bigEndian octets < 2 ^ 32 := by
  induction octets with
  | nil => simp [LeadingZeros, bigEndian]
  | cons octet octets ih =>
    rw [LeadingZeros, ih, bigEndian_cons]
    by_cases long : 4 < octets.length + 1
    · have wide : 2 ^ 32 ≤ 256 ^ octets.length := by
        calc 2 ^ 32 = 256 ^ 4 := by norm_num
          _ ≤ 256 ^ octets.length := Nat.pow_le_pow_right (by norm_num) (by omega)
      constructor
      · rintro ⟨zero, small⟩
        simpa [zero long] using small
      · intro _
        have zero : octet.toNat = 0 := by
          by_contra positive
          have := Nat.le_mul_of_pos_left (256 ^ octets.length) (Nat.pos_of_ne_zero positive)
          omega
        exact ⟨fun _ => UInt8.toNat_inj.mp (by simpa using zero), by omega⟩
    · have narrow : 256 ^ (octets.length + 1) ≤ 2 ^ 32 := by
        calc 256 ^ (octets.length + 1) ≤ 256 ^ 4 := Nat.pow_le_pow_right (by norm_num) (by omega)
          _ = 2 ^ 32 := by norm_num
      have whole := bigEndian_lt (octet :: octets)
      rw [bigEndian_cons, length_cons] at whole
      constructor
      · omega
      · intro _
        exact ⟨fun impossible => absurd impossible long, by omega⟩

def lengthLoopFormat (left length : Nat) : BerFormat Nat := fun _ consumed _ result deviates =>
  consumed.length = left ∧ LeadingZeros consumed ∧
    result = consumed.foldl (fun value octet => (value * 256 + octet.toNat) % 2 ^ 32) length ∧
    deviates = false

theorem decLengthLoop_reads (left length : Nat) : Reads (decLengthLoop left length) (lengthLoopFormat left length) := by
  induction left generalizing length with
  | zero =>
    refine (Reads.pure length).congr ?_
    intro pos consumed rest result deviates
    simp only [lengthLoopFormat, length_eq_zero_iff]
    constructor
    · rintro ⟨rfl, _, rfl, rfl⟩
      exact ⟨rfl, rfl, rfl⟩
    · rintro ⟨rfl, rfl, rfl⟩
      exact ⟨rfl, trivial, rfl, rfl⟩
  | succ left ih =>
    refine (Reads.bind .item fun byte => .bind (Reads.check _) fun _ => ih _).congr ?_
    intro _ consumed _ _ _
    simp only [Format.item_bind, Format.check_bind]
    constructor
    · rintro ⟨count, leading, rfl, rfl⟩
      cases consumed with
      | nil => simp at count
      | cons octet others =>
        obtain ⟨zero, leading⟩ := leading
        have enough : others.length = left := by simpa using count
        refine ⟨octet, others, rfl, ?_, enough, leading, rfl, rfl⟩
        rw [enough] at zero
        by_cases wide : 4 < left + 1
        · simp [zero wide]
        · simp [wide]
    · rintro ⟨_, _, rfl, passes, rfl, leading, rfl, rfl⟩
      refine ⟨rfl, ⟨?_, leading⟩, rfl, rfl⟩
      intro wide
      simpa [wide] using passes

theorem foldl_mod (modulus : Nat) (octets : Octets) : ∀ start : Nat,
    octets.foldl (fun value octet => (value * 256 + octet.toNat) % modulus) (start % modulus) =
      octets.foldl (fun value octet => value * 256 + octet.toNat) start % modulus := by
  induction octets with
  | nil =>
    intro start
    rfl
  | cons head _ ih =>
    intro start
    have step : (start % modulus * 256 + head.toNat) % modulus = (start * 256 + head.toNat) % modulus := by
      rw [Nat.add_mod, Nat.mod_mul_mod, ← Nat.add_mod]
    rw [foldl_cons, foldl_cons, ← ih, step]

theorem foldl_bigEndian (modulus : Nat) (octets : Octets) :
    octets.foldl (fun value octet => (value * 256 + octet.toNat) % modulus) 0 = bigEndian octets % modulus := by
  have reduced := foldl_mod modulus octets 0
  rwa [Nat.zero_mod] at reduced

theorem foldl_mod_eq (octets : Octets) (small : bigEndian octets < 2 ^ 32) :
    octets.foldl (fun value octet => (value * 256 + octet.toNat) % 2 ^ 32) 0 = bigEndian octets := by
  rw [foldl_bigEndian]
  exact Nat.mod_eq_of_lt small

theorem definiteLength_indefinite (length : Nat) : ¬ DefiniteLength [0x80] length := by
  rintro (⟨_, single, short, _⟩ | ⟨_, _, single, nonempty, _⟩)
  · cases single
    exact absurd short (by decide)
  · cases single
    exact nonempty rfl

variable {rest : Octets}

theorem lengthFormat_determined {pos pos' : Nat} {consumed rest' : Octets} {length length' : Nat} {one other : Bool}
    (first : lengthFormat pos consumed rest length one) (second : lengthFormat pos' consumed rest' length' other) :
    one = other := by
  rcases first with ⟨definite, rfl⟩ | ⟨rfl, _, rfl⟩
  · rcases second with ⟨_, rfl⟩ | ⟨rfl, _, rfl⟩
    · rfl
    · exact absurd definite (definiteLength_indefinite length)
  · rcases second with ⟨definite, rfl⟩ | ⟨_, _, rfl⟩
    · exact absurd definite (definiteLength_indefinite length')
    · rfl

theorem tnmBerDecLength_reads : Reads tnmBerDecLength lengthFormat := by
  have parts : Reads tnmBerDecLength (do
      let byte ← .item
      if byte.toNat < 0x80 then pure byte.toNat
      else
        let length ← lengthLoopFormat (byte.toNat - 0x80) 0
        .check (decide (length < 2 ^ 31))
        pure length) := by
    refine .bind .item fun byte => .ite (.pure _) ?_
    exact .bind (decLengthLoop_reads _ _) fun length => .bind (.check _) fun _ => .pure _
  refine parts.remark ?_ ?_ lengthFormat_determined
  · intro _ _ _ _ _ whole
    obtain ⟨octet, _, rfl, matched⟩ := Format.item_bind.mp whole
    split at matched
    next short =>
      obtain ⟨rfl, rfl, rfl⟩ := matched
      exact ⟨false, .inl ⟨.inl ⟨octet, rfl, short, rfl⟩, rfl⟩⟩
    next long =>
      obtain ⟨octets, _, _, _, _, rfl, ⟨count, leading, rfl, _⟩, last, _⟩ := matched
      obtain ⟨small, rfl, rfl, _⟩ := Format.check_bind.mp last
      have fits := (leadingZeros_iff octets).mp leading
      rw [foldl_mod_eq octets fits] at small ⊢
      rw [append_nil]
      cases octets with
      | nil =>
        have indefinite : octet = 0x80 := by
          apply UInt8.toNat_inj.mp
          simp only [length_nil] at count
          change octet.toNat = 128
          omega
        exact ⟨true, .inr ⟨by rw [indefinite], rfl, rfl⟩⟩
      | cons first others =>
        refine ⟨false, .inl ⟨.inr ⟨octet, first :: others, rfl, by simp, ?_, rfl, ?_⟩, rfl⟩⟩
        · omega
        · simpa using small
  · rintro _ _ _ _ _
      (⟨⟨octet, rfl, short, rfl⟩ | ⟨first, octets, rfl, nonempty, count, rfl, small⟩, rfl⟩ | ⟨rfl, rfl, rfl⟩)
    · refine ⟨false, Format.item_bind.mpr ⟨octet, [], rfl, ?_⟩⟩
      rw [if_pos short]
      exact ⟨rfl, rfl, rfl⟩
    · have fits : bigEndian octets < 2 ^ 32 := by omega
      refine ⟨false, Format.item_bind.mpr ⟨first, octets, rfl, ?_⟩⟩
      rw [if_neg (by omega)]
      refine ⟨octets, [], bigEndian octets, false, false, by simp, ?_, ?_, rfl⟩
      · exact ⟨by omega, (leadingZeros_iff octets).mpr fits, (foldl_mod_eq octets fits).symm, rfl⟩
      · exact Format.check_bind.mpr ⟨by simpa using small, rfl, rfl, rfl⟩
    · refine ⟨false, Format.item_bind.mpr ⟨0x80, [], rfl, ?_⟩⟩
      refine ⟨[], [], 0, false, false, rfl, ⟨rfl, trivial, rfl, rfl⟩, ?_, rfl⟩
      exact Format.check_bind.mpr ⟨by simp, rfl, rfl, rfl⟩

def contentFormat {α : Type} (accepts : Octets → α → Prop) (len : Nat) : BerFormat α :=
  fun _ consumed _ value deviates => consumed.length = len ∧ accepts consumed value ∧ deviates = false

def primitiveFormat {α : Type} (tag : UInt8) (accepts : Octets → α → Prop) : BerFormat α :=
  fun pos consumed rest value deviates => ∃ lengthOctets content,
    consumed = tag :: (lengthOctets ++ content) ∧
      lengthFormat pos lengthOctets rest content.length deviates ∧ accepts content value

theorem primitive_reads {α : Type} {tag : UInt8} {accepts : Octets → α → Prop} {body : Nat → BerReader α}
    (bodyReads : ∀ len, Reads (body len) (contentFormat accepts len)) :
    Reads (do decTag tag; let len ← tnmBerDecLength; body len) (primitiveFormat tag accepts) := by
  refine (Reads.bind (decTag_reads tag) fun _ =>
    Reads.bind tnmBerDecLength_reads fun len => bodyReads len).congr ?_
  intro _ _ _ _ deviates
  rw [tag_bind]
  constructor
  · rintro ⟨lengthOctets, content, rfl, declared, accepted⟩
    exact ⟨lengthOctets ++ content, rfl, lengthOctets, content, content.length, deviates, false, rfl,
      declared, ⟨rfl, accepted, rfl⟩, by simp⟩
  · rintro ⟨_, rfl, lengthOctets, content, _, _, _, rfl, declared, ⟨rfl, accepted, rfl⟩, rfl⟩
    rw [Bool.or_false]
    exact ⟨lengthOctets, content, rfl, declared, accepted⟩

theorem fold_reads {β : Type} {loop : Nat → β → BerReader β} {advance : β → UInt8 → β}
    (stop : ∀ value, loop 0 value = pure value)
    (next : ∀ len value, loop (len + 1) value = do let byte ← tnmBerDecByte; loop len (advance value byte))
    (len : Nat) (start : β) :
    Reads (loop len start) (contentFormat (fun content result => result = content.foldl advance start) len) := by
  induction len generalizing start with
  | zero =>
    rw [stop]
    refine (Reads.pure start).congr ?_
    intro pos consumed rest result deviates
    simp only [contentFormat, length_eq_zero_iff]
    constructor
    all_goals
      rintro ⟨rfl, rfl, rfl⟩
      exact ⟨rfl, rfl, rfl⟩
  | succ _ ih =>
    rw [next]
    refine (Reads.bind Reads.item fun byte => ih (advance start byte)).congr ?_
    intro _ consumed _ _ _
    rw [Format.item_bind]
    constructor
    · rintro ⟨count, rfl, rfl⟩
      cases consumed with
      | nil => simp at count
      | cons byte others => exact ⟨byte, others, rfl, by simpa using count, rfl, rfl⟩
    · rintro ⟨_, _, rfl, rfl, rfl, rfl⟩
      exact ⟨rfl, rfl, rfl⟩

def intStart (tag : UInt8) (content : Octets) : Int :=
  if tag == asn1Integer && decide ((content.headD 0).toNat ≥ 0x80) then -1 else 0

def intOf (tag : UInt8) (content : Octets) : Int :=
  content.foldl (fun value byte => toInt32 (value * 256 + byte.toNat)) (intStart tag content)

def IntFits (content : Octets) : Prop :=
  content.length ≤ 4 ∨ (content.length = 5 ∧ content.headD 0 = 0)

def IntContent (tag : UInt8) (content : Octets) (value : Int) : Prop :=
  IntFits content ∧ value = intOf tag content

def intFormat (tag : UInt8) : BerFormat Int := primitiveFormat tag (IntContent tag)

theorem intFits_iff (first : UInt8) (others : Octets) : (!((first != 0 && decide ((first :: others).length > 4)) ||
      (first == 0 && decide ((first :: others).length - 1 > 4)))) = true ↔ IntFits (first :: others) := by
  simp only [IntFits]
  by_cases zero : first = 0
  · simp [zero]
    omega
  · simp [zero]

theorem tnmBerDecInt_reads (tag : UInt8) : Reads (tnmBerDecInt tag) (intFormat tag) := by
  refine primitive_reads fun len => ?_
  by_cases empty : len = 0
  · subst empty
    refine (Reads.pure (0 : Int)).congr ?_
    intro pos consumed rest value deviates
    simp only [contentFormat, length_eq_zero_iff]
    constructor
    · rintro ⟨rfl, ⟨_, rfl⟩, rfl⟩
      exact ⟨rfl, by simp [intOf, intStart], rfl⟩
    · rintro ⟨rfl, rfl, rfl⟩
      exact ⟨rfl, ⟨.inl (by simp), by simp [intOf, intStart]⟩, rfl⟩
  · rw [if_neg empty]
    refine (Reads.bind .peek fun byte => .bind (Reads.check _) fun _ =>
      fold_reads (fun _ => rfl) (fun _ _ => rfl) len _).congr ?_
    intro _ consumed _ _ _
    simp only [Format.peek_bind, Format.check_bind]
    constructor
    · rintro ⟨rfl, ⟨fits, rfl⟩, rfl⟩
      cases consumed with
      | nil => simp at empty
      | cons first others =>
        exact ⟨first, rfl, (intFits_iff first others).mpr fits, rfl, rfl, rfl⟩
    · rintro ⟨byte, head, fits, rfl, rfl, rfl⟩
      cases consumed with
      | nil => simp at empty
      | cons _ others =>
        cases head
        exact ⟨rfl, ⟨(intFits_iff byte others).mp fits, rfl⟩, rfl⟩

def Unsigned64Content (content : Octets) (value : Nat) : Prop :=
  content.length ≤ 9 ∧
    value = content.foldl (fun value byte => (value * 256 + byte.toNat) % 2 ^ 64) 0

theorem checked_reads {α : Type} {passes : Bool} {accepts : Octets → α → Prop} {len : Nat}
    {read : BerReader α} (reads : Reads read (contentFormat accepts len)) : Reads (do Reader.check passes; read)
      (contentFormat (fun content value => passes = true ∧ accepts content value) len) := by
  refine (Reads.bind (Reads.check passes) fun _ => reads).congr ?_
  intro _ _ _ _ _
  rw [Format.check_bind]
  simp only [contentFormat]
  tauto

theorem tnmBerDecUnsigned64_reads : Reads tnmBerDecUnsigned64 (primitiveFormat asn1Counter64 Unsigned64Content) := by
  refine primitive_reads fun len => ?_
  refine (checked_reads (fold_reads (fun _ => rfl) (fun _ _ => rfl) len 0)).congr ?_
  intro _ _ _ _ _
  simp only [decide_eq_true_eq]
  constructor
  all_goals
    rintro ⟨rfl, accepted, flag⟩
    exact ⟨rfl, accepted, flag⟩

def OctetsContent (content octets : Octets) : Prop := content.length ≤ 65535 ∧ octets = content

def octetStringFormat (tag : UInt8) : BerFormat Octets := primitiveFormat tag OctetsContent

theorem takeOctets_reads (len : Nat) :
    Reads (do Reader.check (decide (len ≤ 65535)); Reader.take len : BerReader Octets)
      (contentFormat OctetsContent len) := by
  refine (Reads.bind (.check _) fun _ => Reads.take len).congr ?_
  intro _ _ _ _ _
  rw [Format.check_bind]
  simp only [decide_eq_true_eq]
  constructor
  · rintro ⟨rfl, ⟨small, rfl⟩, flag⟩
    exact ⟨small, rfl, rfl, flag⟩
  · rintro ⟨small, rfl, rfl, flag⟩
    exact ⟨rfl, ⟨small, rfl⟩, flag⟩

theorem tnmBerDecOctetString_reads (tag : UInt8) : Reads (tnmBerDecOctetString tag) (octetStringFormat tag) :=
  primitive_reads takeOctets_reads

def Subid : Octets → Prop
  | [] => False
  | [last] => last.toNat ≤ 0x7f
  | octet :: next :: rest => 0x7f < octet.toNat ∧ Subid (next :: rest)

def subidValue (start : Nat) (octets : Octets) : Nat :=
  octets.foldl (fun subid octet => (subid * 128 + octet.toNat % 128) % 2 ^ 32) start

theorem subid_cons_long {octet : UInt8} (long : 0x7f < octet.toNat) : Subid (octet :: rest) ↔ Subid rest := by
  cases rest with
  | nil =>
    simp only [Subid, iff_false]
    omega
  | cons => simp [Subid, long]

theorem subid_cons_short {octet : UInt8} (short : ¬ 0x7f < octet.toNat) : Subid (octet :: rest) ↔ rest = [] := by
  cases rest with
  | nil =>
    simp only [Subid, iff_true]
    omega
  | cons => simp [Subid, short]

theorem decSubidFrom_eq_some {data : Octets} : ∀ {subid used pos value total : Nat} {last : Cursor UInt8},
    decSubidFrom subid used data pos = (some (value, total), last) ↔
      ∃ octets, data = octets ++ last.data ∧ last.pos = pos + octets.length ∧ Subid octets ∧
        value = subidValue subid octets ∧ total = used + octets.length := by
  induction data with
  | nil =>
    intro subid used pos value total last
    simp only [decSubidFrom, Prod.mk.injEq, reduceCtorEq, false_and, false_iff]
    rintro ⟨octets, split, _, wellFormed, _⟩
    have empty : octets = [] := (append_eq_nil_iff.mp split.symm).1
    rw [empty] at wellFormed
    exact wellFormed
  | cons octet _ ih =>
    intro _ _ _ _ _ last
    simp only [decSubidFrom]
    by_cases long : 0x7f < octet.toNat
    · rw [if_pos long, ih]
      constructor
      · rintro ⟨octets, rfl, moved, wellFormed, rfl, rfl⟩
        refine ⟨octet :: octets, rfl, ?_, (subid_cons_long long).mpr wellFormed, rfl, ?_⟩
        · rw [length_cons]
          omega
        · rw [length_cons]
          omega
      · rintro ⟨octets, split, moved, wellFormed, rfl, rfl⟩
        cases octets with
        | nil => exact wellFormed.elim
        | cons _ others =>
          obtain ⟨rfl, rfl⟩ := split
          refine ⟨others, rfl, ?_, (subid_cons_long long).mp wellFormed, rfl, ?_⟩
          · rw [moved, length_cons]
            omega
          · rw [length_cons]
            omega
    · have small : octet.toNat % 128 = octet.toNat := Nat.mod_eq_of_lt (by omega)
      rw [if_neg long]
      constructor
      · rintro ⟨⟨rfl, rfl⟩, rfl⟩
        refine ⟨[octet], rfl, rfl, (subid_cons_short long).mpr rfl, ?_, rfl⟩
        simp [subidValue, small]
      · rintro ⟨octets, split, moved, wellFormed, rfl, rfl⟩
        cases octets with
        | nil => exact wellFormed.elim
        | cons =>
          obtain ⟨rfl, rfl⟩ := split
          obtain rfl := (subid_cons_short long).mp wellFormed
          obtain ⟨_, _⟩ := last
          simp only at moved
          simp [subidValue, small, moved]

def subidFormat : BerFormat (Nat × Nat) := fun _ consumed _ result deviates =>
  Subid consumed ∧ result = (subidValue 0 consumed, consumed.length) ∧ deviates = false

theorem decSubid_reads : Reads decSubid subidFormat where
  sound := by
    rintro _ pos ⟨_, _⟩ _ found
    obtain ⟨octets, split, moved, wellFormed, rfl, rfl⟩ := decSubidFrom_eq_some.mp found
    exact ⟨octets, false, split, moved, wellFormed, by simp, rfl⟩
  complete := by
    rintro _ consumed _ _ _ ⟨wellFormed, rfl, rfl⟩
    exact decSubidFrom_eq_some.mpr ⟨consumed, rfl, rfl, wellFormed, rfl, by simp⟩
  determined := by
    rintro _ _ _ _ _ _ ⟨_, _, rfl⟩ ⟨_, _, rfl⟩
    rfl

def extendOid (oid : Oid) (subid : Nat) : Oid :=
  if oid.isEmpty then splitFirst subid else oid ++ [subid]

/-- Groups of octets are read until the length is used up; `left` is negative if the last one ran over. -/
inductive OidGroups : Int → Oid → Octets → Oid → Int → Prop where
  | done {len : Int} {oid : Oid} (usedUp : len ≤ 0) : OidGroups len oid [] oid len
  | more {len left : Int} {oid last : Oid} {group rest : Octets} (open_ : 0 < len) (subid : Subid group)
      (bounded : (extendOid oid (subidValue 0 group)).length ≤ tnmOidMaxSize)
      (later : OidGroups (len - group.length) (extendOid oid (subidValue 0 group)) rest last left) :
      OidGroups len oid (group ++ rest) last left

variable {len left : Int} {oid last : Oid} {octets : Octets}

theorem oidGroups_left (groups : OidGroups len oid octets last left) : left = len - octets.length ∧ left ≤ 0 := by
  induction groups with
  | done usedUp => simpa using usedUp
  | more _ _ _ _ ih =>
    obtain ⟨rfl, nonpositive⟩ := ih
    rw [length_append]
    omega

def oidLoopFormat (len : Int) (oid : Oid) : BerFormat (Oid × Int) := fun _ consumed _ result deviates =>
  OidGroups len oid consumed result.1 result.2 ∧ deviates = false

theorem oidGroups_usedUp (usedUp : len ≤ 0) :
    OidGroups len oid octets last left ↔ octets = [] ∧ last = oid ∧ left = len := by
  constructor
  · intro groups
    cases groups with
    | done => exact ⟨rfl, rfl, rfl⟩
    | more => omega
  · rintro ⟨rfl, rfl, rfl⟩
    exact .done usedUp

theorem oidGroups_open (open_ : 0 < len) : OidGroups len oid octets last left ↔
      ∃ group rest, octets = group ++ rest ∧ Subid group ∧ (extendOid oid (subidValue 0 group)).length ≤ tnmOidMaxSize ∧
        OidGroups (len - group.length) (extendOid oid (subidValue 0 group)) rest last left := by
  constructor
  · intro groups
    cases groups with
    | done => omega
    | more _ subid bounded later => exact ⟨_, _, rfl, subid, bounded, later⟩
  · rintro ⟨_, _, rfl, subid, bounded, later⟩
    exact .more open_ subid bounded later

theorem subid_length_pos (subid : Subid octets) : 0 < octets.length := by
  cases octets with
  | nil => exact subid.elim
  | cons => simp

theorem decOidLoop_usedUp {fuel : Nat} (usedUp : len ≤ 0) :
    Reads (decOidLoop fuel len oid) (oidLoopFormat len oid) := by
  have stops : decOidLoop fuel len oid = pure (oid, len) := by
    cases fuel with
    | zero => rfl
    | succ => rw [decOidLoop, if_pos usedUp]
  rw [stops]
  refine (Reads.pure (oid, len)).congr ?_
  rintro _ _ _ ⟨_, _⟩ _
  simp only [oidLoopFormat, oidGroups_usedUp usedUp, Format.pure_apply, Prod.mk.injEq]
  tauto

def oidStepFormat (len : Int) (oid : Oid) (step : Nat × Nat) : BerFormat (Oid × Int) := do
  Format.check (decide ((extendOid oid step.1).length ≤ tnmOidMaxSize))
  oidLoopFormat (len - step.2) (extendOid oid step.1)

theorem oidStepFormat_apply (open_ : 0 < len) (pos : Nat) (consumed rest : Octets) (result : Oid × Int)
    (deviates : Bool) : oidLoopFormat len oid pos consumed rest result deviates ↔
      (subidFormat >>= oidStepFormat len oid) pos consumed rest result deviates := by
  rw [oidLoopFormat, oidGroups_open open_]
  constructor
  · rintro ⟨⟨group, others, rfl, subid, bounded, later⟩, rfl⟩
    refine ⟨group, others, _, false, false, rfl, ⟨subid, rfl, rfl⟩, ?_, rfl⟩
    exact Format.check_bind.mpr ⟨by simpa using bounded, later, rfl⟩
  · rintro ⟨group, others, _, _, _, rfl, ⟨subid, rfl, rfl⟩, matched, rfl⟩
    obtain ⟨bounded, later, rfl⟩ := Format.check_bind.mp matched
    exact ⟨⟨group, others, rfl, subid, by simpa using bounded, later⟩, rfl⟩

theorem decOidLoop_reads (fuel : Nat) (len : Int) (oid : Oid) (enough : len ≤ fuel) :
    Reads (decOidLoop fuel len oid) (oidLoopFormat len oid) := by
  induction fuel generalizing len oid with
  | zero => exact decOidLoop_usedUp (by simpa using enough)
  | succ _ ih =>
    by_cases usedUp : len ≤ 0
    · exact decOidLoop_usedUp usedUp
    · rw [decOidLoop, if_neg usedUp]
      refine .congr ?_ (oidStepFormat_apply (by omega))
      refine decSubid_reads.bind_of_yields ?_
      rintro ⟨_, _⟩ ⟨_, _, _, _, wellFormed, same, _⟩
      cases same
      have positive := subid_length_pos wellFormed
      refine .bind (.check _) fun _ => ih _ _ ?_
      omega

def OidContent (content : Octets) (oid : Oid) : Prop :=
  content ≠ [] ∧ OidGroups content.length [] content oid 0

def oidFormat : BerFormat Oid := fun pos consumed rest oid deviates =>
  ∃ lengthOctets groups len left early, consumed = asn1ObjectIdentifier :: (lengthOctets ++ groups) ∧
    lengthFormat pos lengthOctets rest len early ∧ len ≠ 0 ∧ OidGroups len [] groups oid left ∧
    deviates = (early || decide (left < 0))

theorem tnmBerDecOID_reads : Reads tnmBerDecOID oidFormat := by
  have parts : Reads tnmBerDecOID (do
      tagFormat asn1ObjectIdentifier
      let len ← lengthFormat
      .check (decide (len ≠ 0))
      let result ← (oidLoopFormat len []).mark fun result => decide (result.2 < 0)
      pure result.1) := by
    refine .bind (decTag_reads _) fun _ => .bind tnmBerDecLength_reads fun len => ?_
    refine .bind (.check _) fun _ => ?_
    exact .bind (.mark _ (decOidLoop_reads len len [] (by simp))) fun result => .pure _
  refine parts.congr ?_
  intro _ _ _ oid _
  rw [tag_bind]
  constructor
  · rintro ⟨lengthOctets, groups, len, left, early, rfl, declared, nonzero, matched, rfl⟩
    refine ⟨_, rfl, lengthOctets, groups, len, early, _, rfl, declared, ?_, rfl⟩
    refine Format.check_bind.mpr ⟨by simpa using nonzero, ?_⟩
    exact ⟨groups, [], (oid, left), _, false, by simp, ⟨false, ⟨matched, rfl⟩, rfl⟩, ⟨rfl, rfl, rfl⟩, by simp⟩
  · rintro ⟨_, rfl, lengthOctets, _, len, early, _, rfl, declared, matched, rfl⟩
    obtain ⟨nonzero, groups, _, ⟨_, left⟩, _, _, rfl, ⟨_, ⟨found, rfl⟩, rfl⟩, ⟨rfl, rfl, rfl⟩, rfl⟩ :=
      Format.check_bind.mp matched
    refine ⟨lengthOctets, groups, len, left, early, by simp, declared, by simpa using nonzero, found, ?_⟩
    simp

def nullFormat (tag : UInt8) : BerFormat Unit := fun pos consumed rest _ deviates =>
  ∃ lengthOctets len early, consumed = tag :: lengthOctets ∧ lengthFormat pos lengthOctets rest len early ∧
    deviates = (early || decide (len ≠ 0))

theorem tnmBerDecNull_reads (tag : UInt8) : Reads (tnmBerDecNull tag) (nullFormat tag) := by
  have parts : Reads (tnmBerDecNull tag) (do
      tagFormat tag
      let _ ← lengthFormat.mark fun len => decide (len ≠ 0)
      pure ()) :=
    .bind (decTag_reads _) fun _ => .bind (.mark _ tnmBerDecLength_reads) fun _ => .pure ()
  refine parts.congr ?_
  intro _ _ _ _ _
  rw [tag_bind]
  constructor
  · rintro ⟨lengthOctets, len, early, rfl, declared, rfl⟩
    exact ⟨lengthOctets, rfl, lengthOctets, [], len, _, false, by simp, ⟨early, declared, rfl⟩,
      ⟨rfl, rfl, rfl⟩, by simp⟩
  · rintro ⟨_, rfl, lengthOctets, _, len, _, _, rfl, ⟨early, declared, rfl⟩, ⟨rfl, _, rfl⟩, rfl⟩
    exact ⟨lengthOctets, len, early, by simp, declared, by simp⟩

def anyFormat : BerFormat Octets := fun pos consumed rest octets deviates =>
  octets = consumed ∧ ∃ tag content, primitiveFormat tag OctetsContent pos consumed rest content deviates

theorem tnmBerDecAny_reads : Reads tnmBerDecAny anyFormat := by
  have parts : Reads tnmBerDecAny (.consumed (do
      let _ ← .item
      let len ← lengthFormat
      contentFormat OctetsContent len)) :=
    .consumed (.bind .item fun _ =>
      .bind tnmBerDecLength_reads fun len => takeOctets_reads len)
  refine parts.congr ?_
  intro _ _ _ _ deviates
  constructor
  · rintro ⟨rfl, tag, found, lengthOctets, content, rfl, declared, accepted⟩
    refine ⟨rfl, found, Format.item_bind.mpr ⟨tag, _, rfl, ?_⟩⟩
    exact ⟨lengthOctets, content, content.length, deviates, false, rfl, declared, ⟨rfl, accepted, rfl⟩, by simp⟩
  · rintro ⟨rfl, found, matched⟩
    obtain ⟨tag, _, rfl, lengthOctets, content, _, _, _, rfl, declared, ⟨rfl, accepted, rfl⟩, rfl⟩ :=
      Format.item_bind.mp matched
    rw [Bool.or_false]
    exact ⟨rfl, tag, found, lengthOctets, content, rfl, declared, accepted⟩

def seqStartFormat (tag : UInt8) : BerFormat (Nat × Nat) := fun pos consumed rest result deviates =>
  ∃ lengthOctets, consumed = tag :: lengthOctets ∧ lengthFormat pos lengthOctets rest result.2 deviates ∧
    result.1 = pos + consumed.length

theorem tnmBerDecSequenceStart_reads (tag : UInt8) : Reads (tnmBerDecSequenceStart tag) (seqStartFormat tag) := by
  refine (Reads.bind (decTag_reads tag) fun _ => .bind tnmBerDecLength_reads fun length =>
    .bind .position fun token => Reads.pure (token, length)).congr ?_
  rintro _ _ _ ⟨_, length⟩ deviates
  rw [tag_bind]
  constructor
  · rintro ⟨lengthOctets, rfl, declared, rfl⟩
    refine ⟨lengthOctets, rfl, lengthOctets, [], length, deviates, false, by simp, declared, ?_, by simp⟩
    refine Format.position_bind.mpr ⟨rfl, ?_, rfl⟩
    simp only [length_cons, Prod.mk.injEq, and_true]
    omega
  · rintro ⟨_, rfl, lengthOctets, _, _, _, _, rfl, declared, matched, rfl⟩
    obtain ⟨rfl, same, rfl⟩ := Format.position_bind.mp matched
    cases same
    rw [Bool.or_false, append_nil]
    refine ⟨lengthOctets, rfl, declared, ?_⟩
    simp only [length_cons]
    omega

theorem decLengthLoop_forward (left length : Nat) : (decLengthLoop left length).Forward := by
  induction left generalizing length with
  | zero => exact Reader.Forward.pure length
  | succ _ ih =>
    exact Reader.Forward.item.bind fun _ => (Reader.Forward.check _).bind fun _ => ih _

theorem tnmBerDecLength_forward : tnmBerDecLength.Forward := by
  refine Reader.Forward.item.bind fun byte => ?_
  split
  · exact Reader.Forward.pure _
  · exact (decLengthLoop_forward _ _).bind fun _ =>
      (Reader.Forward.check _).bind fun _ => Reader.Forward.pure _

theorem decTag_forward (tag : UInt8) : (decTag tag).Forward :=
  Reader.Forward.item.bind fun _ => Reader.Forward.check _

theorem tnmBerDecNull_forward (tag : UInt8) : (tnmBerDecNull tag).Forward :=
  (decTag_forward tag).bind fun _ => tnmBerDecLength_forward.bind fun _ => Reader.Forward.pure ()

theorem tnmBerDecSequenceStart_forward (tag : UInt8) : (tnmBerDecSequenceStart tag).Forward :=
  (decTag_forward tag).bind fun _ => tnmBerDecLength_forward.bind fun _ =>
    Reader.Forward.position.bind fun _ => Reader.Forward.pure _

def seqEndFormat (token length : Nat) : BerFormat Unit := fun pos consumed _ _ deviates =>
  consumed = [] ∧ pos = token + length ∧ deviates = false

theorem tnmBerDecSequenceEnd_reads (token length : Nat) :
    Reads (tnmBerDecSequenceEnd token length) (seqEndFormat token length) := by
  refine (Reads.bind .position fun current => Reads.check (current == token + length)).congr ?_
  simp only [Format.position_bind, Format.check_apply, beq_iff_eq, seqEndFormat]
  tauto

end Tnm
