import TkinedRemix.Mib.Build

/-!
Object identifier values of a MIB module, `ParseNodeList` and `ReadSubID` of `tnmMibParser.c`. The sub-identifier
-1 marks an entry that has none.
-/

namespace Tnm.Mib

inductive Token where
  | label (keyword : List Char)
  | number (keyword : List Char)
  | leftBracket
  | rightBracket
  | leftParen
  | rightParen
  | other
deriving DecidableEq

def noSubid : Nat := 2 ^ 32 - 1

def atoi (digits : List Char) : Nat := digits.foldl (fun number digit => (10 * number + (digit.toNat - 48)) % 2 ^ 32) 0

structure SubidEntry where
  parentName : List Char
  label : Option (List Char)
  subid : Nat
deriving DecidableEq

/-- The entry `np` of the source is the first one of the list. -/
structure Reader where
  name : List Char
  isChild : Bool
  subidList : List SubidEntry
deriving DecidableEq

def doLabel (reader : Reader) (keyword : List Char) : Reader where
  name := keyword
  isChild := true
  subidList :=
    (if reader.isChild then ⟨reader.name, some keyword, noSubid⟩ else ⟨keyword, none, noSubid⟩) :: reader.subidList

def Reader.setSubid (reader : Reader) (subid : Nat) : Reader :=
  match reader.subidList with
  | [] => reader
  | np :: rest => { reader with subidList := { np with subid := subid } :: rest }

/-- The keywords up to the right bracket. -/
def readComponents (tnmMibGetName : List Char → Option (List Char)) : List Token → Reader → Option (List SubidEntry)
  | [], _ => none
  | .rightBracket :: _, reader => some reader.subidList
  | .label keyword :: rest, reader => readComponents tnmMibGetName rest (doLabel reader keyword)
  | .leftParen :: .number keyword :: .rightParen :: rest, reader =>
    -- there is no entry to set
    if reader.subidList = [] then none else readComponents tnmMibGetName rest (reader.setSubid (atoi keyword))
  | .number keyword :: rest, reader =>
    match reader.subidList with
    | [] =>
      match tnmMibGetName keyword with
      | none => none
      | some label => readComponents tnmMibGetName rest (doLabel reader label)
    | np :: others =>
      if np.subid ≠ noSubid then
        readComponents tnmMibGetName rest
          { reader with subidList := ⟨reader.name, none, atoi keyword⟩ :: np :: others }
      else readComponents tnmMibGetName rest (reader.setSubid (atoi keyword))
  | _, _ => none

def readSubID (tnmMibGetName : List Char → Option (List Char)) : List Token → Option (List SubidEntry)
  | .leftBracket :: rest => readComponents tnmMibGetName rest ⟨[], false, []⟩
  | _ => none

/-- The entries up to the first one without a sub-identifier. -/
def addEntries (moduleName : Option (List Char)) : List SubidEntry → List Parsed → Parsed → List Parsed × Parsed
  | [], nodeList, node => (nodeList, node)
  | entry :: rest, nodeList, node =>
    if entry.subid = noSubid then (nodeList, node)
    else
      match entry.label with
      | none =>
        addEntries moduleName rest nodeList { node with parentName := some entry.parentName, subid := entry.subid }
      | some label =>
          addEntries moduleName rest (⟨label, some entry.parentName, moduleName, entry.subid⟩ :: nodeList) node

def parseNodeList (tnmMibGetName : List Char → Option (List Char)) (moduleName : Option (List Char))
    (tokens : List Token)
    (nodeList : List Parsed) (node : Parsed) : Option (List Parsed × Parsed) :=
  match readSubID tnmMibGetName tokens with
  | none => none
  | some [] => none
  | some subidList => some (addEntries moduleName subidList nodeList node)

inductive Component where
  | number (subid : Nat)
  | named (name : List Char) (subid : Nat)
deriving DecidableEq

def Component.subid : Component → Nat
  | .number subid => subid
  | .named _ subid => subid

def Component.name : Component → Option (List Char)
  | .number _ => none
  | .named name _ => some name

/-- `{ parent c1 ... ck }`, or with a number for the first name `{ iso(1) c1 ... ck }`. -/
structure OidValue where
  parent : List Char
  parentNumber : Option Nat
  components : List Component

def subidTokens (subid : Nat) : List Token := [.leftParen, .number (subidText subid), .rightParen]

def Component.tokens : Component → List Token
  | .number subid => [.number (subidText subid)]
  | .named name subid => .label name :: subidTokens subid

def OidValue.tokens (value : OidValue) : List Token :=
  .leftBracket :: .label value.parent ::
    ((value.parentNumber.map subidTokens).getD [] ++ value.components.flatMap Component.tokens ++ [.rightBracket])

end Tnm.Mib
