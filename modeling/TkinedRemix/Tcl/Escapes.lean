import TkinedRemix.Snmp.AgentCore

/-!
Percent escapes in scripts, `TnmSnmpEvalCallback` and `EvalBinding`. The texts the escapes stand for are those of
the manual pages `snmp.n` and `map.n`.
-/

namespace Tnm

open List Lib

/-- The loop of both procedures; `pending` is the text between `startPtr` and `scanPtr`. -/
def substituteFrom (expand : Char → List Char) : List Char → List Char → List Char → Option (List Char)
  | tclCmd, pending, [] => some (tclCmd ++ pending)
  | tclCmd, pending, char :: text =>
    if char = '%' then
      match text with
      -- The switch sees the null character, and the loop steps over it.
      | [] => none
      | letter :: text => substituteFrom expand (tclCmd ++ pending ++ expand letter) [] text
    else substituteFrom expand tclCmd (pending ++ [char]) text

def substitute (expand : Char → List Char) (script : List Char) : Option (List Char) :=
  substituteFrom expand [] [] script

inductive Piece where
  | plain (char : Char)
  | escape (letter : Char)
deriving DecidableEq

def pieces : List Char → List Piece
  | [] => []
  | [char] => [.plain char]
  | char :: letter :: text =>
    if char = '%' then .escape letter :: pieces text else .plain char :: pieces (letter :: text)

def Piece.text (meaning : Char → List Char) : Piece → List Char
  | .plain char => [char]
  | .escape letter => meaning letter

def expansion (meaning : Char → List Char) (script : List Char) : List Char :=
  (pieces script).flatMap (Piece.text meaning)

def percentsFrom (count : Nat) (text : List Char) : Nat :=
  text.foldl (fun count char => if char = '%' then count + 1 else 0) count

/-- The percent signs at the end of the script can be paired. -/
def EndsPaired (script : List Char) : Prop := percentsFrom 0 script % 2 = 0

instance (script : List Char) : Decidable (EndsPaired script) := inferInstanceAs (Decidable (_ = 0))

theorem substituteFrom_eq (expand : Char → List Char) (tclCmd pending text : List Char) (count : Nat)
    (paired : count % 2 = 0) : substituteFrom expand tclCmd pending text =
      if percentsFrom count text % 2 = 0 then some (tclCmd ++ pending ++ expansion expand text) else none := by
  induction text using pieces.induct generalizing tclCmd pending count with
  | case1 => simp [substituteFrom, percentsFrom, paired, expansion, pieces]
  | case2 char =>
    by_cases percent : char = '%'
    · have odd : ¬ (count + 1) % 2 = 0 := by omega
      simp [substituteFrom, percentsFrom, percent, odd]
    · simp [substituteFrom, percentsFrom, percent, expansion, pieces, Piece.text]
  | case3 letter text ih =>
    -- A percent sign behind a percent sign keeps the count even, any other character clears it.
    have even : (if letter = '%' then count + 1 + 1 else 0) % 2 = 0 := by split <;> omega
    simpa [substituteFrom, percentsFrom, expansion, pieces, Piece.text] using ih (tclCmd ++ pending ++ expand letter)
      [] _ even
  | case4 char letter text percent ih =>
    have next := ih tclCmd (pending ++ [char]) 0 rfl
    rw [substituteFrom, next]
    simp [percentsFrom, percent, expansion, pieces, Piece.text]

theorem substitute_eq_iff (expand meaning : Char → List Char) (script : List Char) :
    substitute expand script = some (expansion meaning script) ↔
      EndsPaired script ∧ expansion expand script = expansion meaning script := by
  rw [substitute, substituteFrom_eq expand [] [] script 0 rfl, EndsPaired]
  split <;> simp [*]

section

variable {expand meaning : Char → List Char} {special : Char}
  (agree : ∀ letter, letter ≠ special → expand letter = meaning letter)

include agree

theorem Piece.text_agree (piece : Piece) (other : piece ≠ .escape special) :
    piece.text expand = piece.text meaning := by
  cases piece with
  | plain char => rfl
  | escape letter => exact agree letter fun same => other (by rw [same])

theorem length_flatMap_text (script : List Piece) :
    (script.flatMap (Piece.text expand)).length + script.count (.escape special) * (meaning special).length =
      (script.flatMap (Piece.text meaning)).length + script.count (.escape special) * (expand special).length := by
  induction script with
  | nil => simp
  | cons piece script ih =>
    by_cases same : piece = .escape special
    · subst same
      simp only [flatMap_cons, length_append, count_cons_self, Piece.text, Nat.add_mul]
      omega
    · simp only [flatMap_cons, length_append, count_cons_of_ne same, Piece.text_agree agree piece same]
      omega

theorem special_eq_of_length (lengths : (expand special).length = (meaning special).length) (script : List Piece)
    (same : script.flatMap (Piece.text expand) = script.flatMap (Piece.text meaning))
    (used : Piece.escape special ∈ script) : expand special = meaning special := by
  induction script with
  | nil => cases used
  | cons piece script ih =>
    rw [flatMap_cons] at same
    by_cases here : piece = .escape special
    · subst here
      exact (append_inj same lengths).1
    · rw [Piece.text_agree agree piece here] at same
      exact ih (append_cancel_left same) ((mem_cons.mp used).resolve_left fun equal => here equal.symm)

/-- Readings that differ at a letter give different texts for every script that uses it. -/
theorem expansion_eq_iff (script : List Char) : expansion expand script = expansion meaning script ↔
      (Piece.escape special ∈ pieces script → expand special = meaning special) := by
  constructor
  · intro same used
    have lengths := length_flatMap_text agree (pieces script)
    rw [show (pieces script).flatMap (Piece.text expand) = _ from same] at lengths
    have equal := Nat.eq_of_mul_eq_mul_left (count_pos_iff.mpr used) (Nat.add_left_cancel lengths)
    exact special_eq_of_length agree equal.symm (pieces script) same used
  · intro equal
    refine flatMap_congr fun piece member => ?_
    by_cases here : piece = .escape special
    · subst here
      exact equal member
    · exact Piece.text_agree agree piece here

end

/-- What `TnmSnmpEvalCallback` reads of the session, the PDU and its other arguments. -/
structure CallbackPdu where
  session : Option String
  requestId : Int32
  varbind : String
  errorStatus : Int32
  errorIndex : Int32
  address : String
  port : UInt16
  context : String
  engineID : String
  type : UInt8
  inst : Option String
  oid : Option String
  value : Option String
  last : Option String

def PduType.name : PduType → String
  | .get => "get"
  | .getnext => "getnext"
  | .response => "response"
  | .set => "set"
  | .trap1 => "trap1"
  | .getbulk => "getbulk"
  | .inform => "inform"
  | .trap2 => "trap2"
  | .report => "report"

def CallbackPdu.errorName (pdu : CallbackPdu) : String :=
  (tnmGetTableValue tnmSnmpErrorTable pdu.errorStatus.toInt).getD "unknown"

def CallbackPdu.typeName (pdu : CallbackPdu) : String := ((PduType.ofTag pdu.type).map PduType.name).getD "unknown"

/-- The switch of `TnmSnmpEvalCallback`. -/
def CallbackPdu.expand (pdu : CallbackPdu) (letter : Char) : List Char :=
  match letter with
  | 'R' => (toString pdu.requestId.toInt).toList
  | 'S' => (pdu.session.getD "").toList
  | 'V' => pdu.varbind.toList
  | 'E' => pdu.errorName.toList
  | 'I' => (toString (pdu.errorIndex - 1).toInt).toList
  | 'A' => pdu.address.toList
  | 'P' => (toString pdu.port.toNat).toList
  | 'C' => pdu.context.toList
  | 'G' => pdu.engineID.toList
  | 'T' => pdu.typeName.toList
  | 'o' => (pdu.inst.getD "").toList
  | 'i' => (pdu.oid.getD "").toList
  | 'v' => (pdu.value.getD "").toList
  | 'p' => (pdu.last.getD "").toList
  | '%' => ['%']
  | letter => ['%', letter]

def tnmSnmpEvalCallback (pdu : CallbackPdu) (cmd : List Char) : Option (List Char) := substitute pdu.expand cmd

/-- The index of the varbind in error counts from 0, and there is none without an error. -/
def CallbackPdu.documentedIndex (pdu : CallbackPdu) : Int :=
  if pdu.errorStatus = 0 then -1 else pdu.errorIndex.toInt - 1

/-- The escapes as `snmp.n` lists them. It says nothing about other letters: they stay. -/
def CallbackPdu.documented (pdu : CallbackPdu) (letter : Char) : List Char :=
  match letter with
  | '%' => ['%']
  | 'V' => pdu.varbind.toList
  | 'R' => (toString pdu.requestId.toInt).toList
  | 'S' => (pdu.session.getD "").toList
  | 'E' => pdu.errorName.toList
  | 'I' => (toString pdu.documentedIndex).toList
  | 'A' => pdu.address.toList
  | 'P' => (toString pdu.port.toNat).toList
  | 'T' => pdu.typeName.toList
  | 'C' => pdu.context.toList
  | 'G' => pdu.engineID.toList
  | 'o' => (pdu.inst.getD "").toList
  | 'i' => (pdu.oid.getD "").toList
  | 'v' => (pdu.value.getD "").toList
  | 'p' => (pdu.last.getD "").toList
  | letter => ['%', letter]

theorem CallbackPdu.expand_documented (pdu : CallbackPdu) (letter : Char) (other : letter ≠ 'I') :
    pdu.expand letter = pdu.documented letter := by
  unfold expand documented
  split <;> first | rfl | simp_all

theorem natRepr_injective {left right : Nat} (same : left.repr = right.repr) : left = right := by
  have digits := congrArg String.toList same
  simpa using congrArg (Nat.ofDigitChars 10 · 0) digits

theorem natRepr_ne_neg (left right : Nat) : left.repr ≠ "-" ++ right.repr := by
  intro same
  have digits := congrArg String.toList same
  simp at digits
  have minus : '-' ∈ Nat.toDigits 10 left := by simp [digits]
  have digit := Nat.isDigit_of_mem_toDigits (by decide) (by decide) minus
  simp at digit

theorem intText_injective {left right : Int} (same : toString left = toString right) : left = right := by
  rw [Int.toString_eq_repr, Int.toString_eq_repr, Int.repr_eq_if, Int.repr_eq_if] at same
  split at same <;> split at same
  · have := natRepr_injective same
    omega
  · exact absurd same (natRepr_ne_neg _ _)
  · exact absurd same.symm (natRepr_ne_neg _ _)
  · have := natRepr_injective ((String.append_right_inj _).mp same)
    omega

theorem CallbackPdu.index_documented_iff (pdu : CallbackPdu) : pdu.expand 'I' = pdu.documented 'I' ↔
      pdu.errorIndex = 0 ∨ pdu.errorStatus ≠ 0 ∧ pdu.errorIndex ≠ Int32.minValue := by
  have numbers : pdu.expand 'I' = pdu.documented 'I' ↔ (pdu.errorIndex - 1).toInt = pdu.documentedIndex :=
    ⟨fun same => intText_injective (String.toList_inj.mp same), fun same => by
      simp only [expand, documented, same]⟩
  have lower := pdu.errorIndex.le_toInt
  have upper := pdu.errorIndex.toInt_lt
  have zero : pdu.errorIndex = 0 ↔ pdu.errorIndex.toInt = 0 := Int32.toInt_inj.symm
  have least : pdu.errorIndex = Int32.minValue ↔ pdu.errorIndex.toInt = -2 ^ 31 := Int32.toInt_inj.symm
  rw [numbers, documentedIndex, Int32.toInt_sub, Int32.toInt_one, zero, ne_eq, ne_eq, least]
  -- Only the least index wraps.
  have wrapped : (pdu.errorIndex.toInt - 1).bmod (2 ^ 32) =
      if pdu.errorIndex.toInt = -2 ^ 31 then 2 ^ 31 - 1 else pdu.errorIndex.toInt - 1 := by
    rw [Int.bmod_def]
    split_ifs <;> omega
  rw [wrapped]
  split_ifs <;> simp [*]
  omega

/-- What `EvalBinding` reads of the event and of the binding; names stand for command tokens. -/
structure BoundEvent where
  map : Option String
  item : Option String
  eventName : String
  event : Option String
  pattern : String
  eventData : Option String
  binding : Option String

/-- The switch of `EvalBinding`. -/
def BoundEvent.expand (event : BoundEvent) (letter : Char) : List Char :=
  match letter with
  | 'M' => (event.map.getD "").toList
  | 'I' => (event.item.getD "").toList
  | 'N' => event.eventName.toList
  | 'E' => (event.event.getD "").toList
  | 'P' => event.pattern.toList
  | 'A' => (event.eventData.getD "").toList
  | 'B' => (event.binding.getD "").toList
  | '%' => ['%']
  | letter => ['%', letter]

def evalBinding (event : BoundEvent) (bindData : List Char) : Option (List Char) := substitute event.expand bindData

/-- The escapes as `map.n` lists them. -/
def BoundEvent.documented (event : BoundEvent) (letter : Char) : List Char :=
  match letter with
  | '%' => ['%']
  | 'A' => (event.eventData.getD "").toList
  | 'B' => (event.binding.getD "").toList
  | 'E' => (event.event.getD "").toList
  | 'I' => (event.item.getD "").toList
  | 'M' => (event.map.getD "").toList
  | 'N' => event.eventName.toList
  | 'P' => event.pattern.toList
  | letter => ['%', letter]

theorem BoundEvent.expand_documented (event : BoundEvent) : event.expand = event.documented := by
  funext letter
  unfold expand documented
  split <;> first | rfl | simp_all

theorem substitution_documented_iff (pdu : CallbackPdu) (event : BoundEvent) (script : List Char) :
    (tnmSnmpEvalCallback pdu script = some (expansion pdu.documented script) ↔
      EndsPaired script ∧ (Piece.escape 'I' ∈ pieces script →
        pdu.errorIndex = 0 ∨ pdu.errorStatus ≠ 0 ∧ pdu.errorIndex ≠ Int32.minValue)) ∧
    (evalBinding event script = some (expansion event.documented script) ↔ EndsPaired script) := by
  constructor
  · rw [tnmSnmpEvalCallback, substitute_eq_iff, expansion_eq_iff pdu.expand_documented, pdu.index_documented_iff]
  · rw [evalBinding, substitute_eq_iff, event.expand_documented, and_iff_left rfl]

def unerring : CallbackPdu where
  session := some "snmp0"
  requestId := 1
  varbind := ""
  errorStatus := 0
  errorIndex := 1
  address := "127.0.0.1"
  port := 161
  context := "public"
  engineID := ""
  type := 0xa2
  inst := none
  oid := none
  value := none
  last := none

theorem substitution_undocumented :
    evalBinding ⟨some "map0", none, "link", none, "*", none, none⟩ ['%'] = none ∧
      tnmSnmpEvalCallback unerring ['%'] = none ∧
      tnmSnmpEvalCallback unerring ['%', 'I'] = some ['0'] ∧ expansion unerring.documented ['%', 'I'] = ['-', '1'] :=
  ⟨rfl, rfl, rfl, rfl⟩

end Tnm
