import TkinedRemix.Snmp.BerCore

/-!
Index values as `TnmMibPack` writes them into an instance identifier. An object is what `TnmMibGetValue` makes of it
for the syntax of its index element: a value, an error, or the panic of a syntax that no index can have.
-/

namespace Tnm.Mib

open List

/-- An index element with the ranges of the SIZE restriction of its type. -/
structure IndexNode where
  sizes : List (Nat × Nat)

def IndexNode.fixedSize (node : IndexNode) : Bool :=
  match node.sizes with
  | [(min, max)] => min == max
  | _ => false

inductive IndexValue where
  | integer (value : Int)
  | unsigned32 (value : BitVec 32)
  | ipAddress (addr : BitVec 32)
  | objectIdentifier (oid : Oid)
  | octetString (octets : Octets)

namespace IndexValue

def subids : IndexValue → List Nat
  | integer value => [(value % 2 ^ 32).toNat]
  | unsigned32 value => [value.toNat]
  | ipAddress addr => [24, 16, 8, 0].map fun shift => (addr >>> shift &&& 0xff).toNat
  | objectIdentifier oid => oid
  | octetString octets => octets.map UInt8.toNat

def isString : IndexValue → Bool
  | octetString _ => true
  | _ => false

def sized : IndexValue → Bool
  | objectIdentifier _ => true
  | value => value.isString

def withLength (value : IndexValue) (written : Bool) : List Nat :=
  if value.sized && written then value.subids.length :: value.subids else value.subids

end IndexValue

inductive PackError where
  | invalidValue (label : String)
  | argumentCount
  | panic

abbrev IndexObj := Except PackError IndexValue

def tnmOidAppend (oid : Oid) (subid : Nat) : Oid := if oid.length = tnmOidMaxSize then oid else oid ++ [subid]

/-- The sub-identifiers that each component appends. The flag stays set behind a fixed size. -/
def packPieces (implied : Bool) : List IndexNode → List IndexObj → Except PackError (List (List Nat))
  | [], [] => .ok []
  | node :: nodes, obj :: objv => do
    let value ← obj
    let implied := implied || value.sized && node.fixedSize
    let rest ← packPieces implied nodes objv
    return value.withLength (!implied || !nodes.isEmpty) :: rest
  | _, _ => .error .argumentCount

def tnmMibPack (oid : Oid) (objv : List IndexObj) (implied : Bool) (indexNodeList : List IndexNode) :
    Except PackError Oid :=
  (packPieces implied indexNodeList objv).map fun pieces => pieces.flatten.foldl tnmOidAppend oid

structure IndexComponent where
  node : IndexNode
  value : IndexValue

namespace IndexComponent

def obj (component : IndexComponent) : IndexObj := .ok component.value

def fixed (component : IndexComponent) : Bool := component.value.sized && component.node.fixedSize

def fixedString (component : IndexComponent) : Bool := component.value.isString && component.node.fixedSize

end IndexComponent

open IndexComponent

/-- SMIv2 has no length for a string of a fixed size, and none for the last component if it is implied. -/
def prescribed (implied : Bool) : List IndexComponent → List (List Nat)
  | [] => []
  | component :: rest =>
    component.value.withLength (!(implied && rest.isEmpty || component.fixedString)) :: prescribed implied rest

section

variable (oid : Oid) (implied : Bool) (components : List IndexComponent)

/-- No string of a fixed size before the last component, and no fixed size that the last component takes over. -/
structure Packable : Prop where
  early : ∀ component ∈ components.dropLast, component.fixedString = false
  last : ∀ component ∈ components.getLast?, component.value.sized = true → components.any fixed = true →
    implied = true ∨ component.fixedString = true
  fits : oid.length ≤ tnmOidMaxSize → oid.length + (prescribed implied components).flatten.length ≤ tnmOidMaxSize

theorem withLength_inj {value : IndexValue} {written other : Bool} :
    value.withLength written = value.withLength other ↔ (value.sized = true → written = other) := by
  unfold IndexValue.withLength
  cases value.sized <;> cases written <;> cases other <;> simp

theorem foldl_tnmOidAppend (subids : List Nat) : subids.foldl tnmOidAppend oid =
    oid ++ if oid.length ≤ tnmOidMaxSize then subids.take (tnmOidMaxSize - oid.length) else subids := by
  induction subids generalizing oid with
  | nil => simp
  | cons subid rest ih =>
    rw [foldl_cons, tnmOidAppend]
    by_cases full : oid.length = tnmOidMaxSize
    · rw [ih]
      simp [full]
    · rw [if_neg full, ih, length_append, length_singleton, append_assoc, singleton_append]
      split
      · rw [if_pos (by omega), ← take_succ_cons, Nat.sub_add_eq, Nat.sub_add_cancel (by omega)]
      · rw [if_neg (by omega)]

theorem packPieces_prescribed_iff (flag : Bool) :
    packPieces flag (components.map node) (components.map obj) = .ok (prescribed implied components) ↔
      (∀ component ∈ components.dropLast, component.fixedString = false) ∧
      ∀ component ∈ components.getLast?, component.value.sized = true →
        (flag || components.any fixed) = (implied || component.fixedString) := by
  induction components generalizing flag with
  | nil => simp [packPieces, prescribed]
  | cons component rest ih =>
    have step : packPieces flag ((component :: rest).map node) ((component :: rest).map obj) =
          .ok (prescribed implied (component :: rest)) ↔
        (component.value.sized = true → (!(flag || component.fixed) || !rest.isEmpty) =
          !(implied && rest.isEmpty || component.fixedString)) ∧
        packPieces (flag || component.fixed) (rest.map node) (rest.map obj) = .ok (prescribed implied rest) := by
      rw [← withLength_inj, prescribed]
      simp only [map_cons, obj, packPieces, bind, Except.bind, pure, Except.pure, fixed]
      split <;> simp_all
    rw [step, ih]
    cases rest with
    | nil => simp [-Bool.not_or]
    | cons next rest =>
      have isSized : component.fixedString = true → component.value.sized = true := by
        cases component with
        | mk _ value => cases value <;> simp [fixedString, IndexValue.sized, IndexValue.isString]
      rw [dropLast_cons_cons, Bool.or_assoc]
      cases text : component.fixedString <;> simp_all

theorem tnmMibPack_prescribed_iff :
    (packPieces implied (components.map node) (components.map obj) = .ok (prescribed implied components) ∧
      tnmMibPack oid (components.map obj) implied (components.map node) =
        .ok (oid ++ (prescribed implied components).flatten)) ↔ Packable oid implied components := by
  rw [tnmMibPack]
  constructor
  · rintro ⟨pieces, packed⟩
    rw [pieces] at packed
    simp only [Except.map, Except.ok.injEq, foldl_tnmOidAppend, append_cancel_left_eq] at packed
    obtain ⟨early, last⟩ := (packPieces_prescribed_iff ..).mp pieces
    refine ⟨early, fun component member isSized any => ?_, fun room => ?_⟩
    · simpa [any] using last component member isSized
    · rw [if_pos room] at packed
      have := congrArg length packed
      rw [length_take] at this
      omega
  · rintro ⟨early, last, fits⟩
    have pieces := (packPieces_prescribed_iff implied components implied).mpr ⟨early, fun component member isSized => by
      have own : component.fixedString = true → components.any fixed = true := by
        intro text
        refine any_eq_true.mpr ⟨component, mem_of_getLast? member, ?_⟩
        rw [fixed, isSized, (Bool.and_eq_true_iff.mp text).2]
        rfl
      grind⟩
    refine ⟨pieces, ?_⟩
    rw [pieces]
    simp only [Except.map, Except.ok.injEq, foldl_tnmOidAppend, append_cancel_left_eq]
    split
    · exact take_of_length_le (by omega)
    · rfl

end

/-- The string of two octets has a length, and the string behind it has none. -/
theorem tnmMibPack_fixedSize :
    tnmMibPack [1] [.ok (.octetString [7, 8]), .ok (.octetString [9])] false [⟨[(2, 2)]⟩, ⟨[]⟩] = .ok [1, 2, 7, 8, 9] ∧
      prescribed false [⟨⟨[(2, 2)]⟩, .octetString [7, 8]⟩, ⟨⟨[]⟩, .octetString [9]⟩] = [[7, 8], [1, 9]] :=
  ⟨rfl, rfl⟩

end Tnm.Mib
