import TkinedRemix.Snmp.PduText

/-!
Looking up nodes of the MIB tree, `tnmMibTree.c` and `tnmMibUtil.c`. A node is referred to by the sub-identifiers
that lead to it; the offset -1 says that none is left.
-/

namespace Tnm.Mib

open Lib

structure MibNode where
  label : List Char
  moduleName : Option (List Char)
deriving DecidableEq

abbrev MibTree := SiblingTree Nat MibNode

/-- The tree, and the table of labels: a label that is not unique is there without a node. -/
structure Tables where
  mibTree : MibTree
  nodeHashTable : List Char → Option (Option Oid)

/-- Whether the digits are hexadecimal, and how many characters were read ahead. -/
structure Scan where
  isHex : Bool
  skip : Nat

def startsHex (rest : List Char) : Bool := rest.take 2 == ['0', 'x']

def isOidFrom : List Char → Scan → Bool
  | [], _ => true
  | _ :: rest, ⟨isHex, skip + 1⟩ => isOidFrom rest ⟨isHex, skip⟩
  | char :: rest, ⟨isHex, 0⟩ =>
    if char = '.' then isOidFrom rest (if startsHex rest then ⟨true, 2⟩ else ⟨false, 0⟩)
    else if char = ':' then isOidFrom rest ⟨true, 0⟩
    else if isHex && !isHexDigit char then false
    else if !isHex && !char.isDigit then false
    else isOidFrom rest ⟨isHex, 0⟩

def tnmIsOid (text : List Char) : Bool := isOidFrom text ⟨false, 0⟩

def needsExpansion : List Char → Bool
  | [] => false
  | char :: rest =>
    (char == ':' && (rest.head?.any Char.isDigit)) || (char == '.' && startsHex rest) || needsExpansion rest

def signedText (word : Nat) : List Char :=
  if word < 2 ^ 31 then subidText word else '-' :: subidText (2 ^ 32 - word)

def hexWord (digits : List Char) : Nat := digits.foldl (fun word digit => (word * 16 + hexDigit digit) % 2 ^ 32) 0

def expandHex : Nat → List Char → List Char
  | 0, _ => []
  | _, [] => []
  | fuel + 1, char :: rest =>
    if (char == ':' && (rest.head?.any Char.isDigit)) || (char == '.' && startsHex rest) then
      let digits := (if char = ':' then rest else rest.drop 2)
      '.' :: signedText (hexWord (digits.takeWhile isHexDigit)) ++ expandHex fuel (digits.dropWhile isHexDigit)
    else char :: expandHex fuel rest

def tnmHexToOid (text : List Char) : Option (List Char) :=
  if needsExpansion text then some (expandHex text.length text) else none

/-- The first pass of `TnmOidFromString`; a dot does not end a hexadecimal sub-identifier. -/
def countSeparators : List Char → Scan → Option Nat
  | [], _ => some 0
  | _ :: rest, ⟨isHex, skip + 1⟩ => countSeparators rest ⟨isHex, skip⟩
  | char :: rest, ⟨isHex, 0⟩ =>
    if char = '.' then (countSeparators rest (if startsHex rest then ⟨true, 2⟩ else ⟨isHex, 0⟩)).map (· + 1)
    else if char = ':' then (countSeparators rest ⟨true, 0⟩).map (· + 1)
    else if isHex && !isHexDigit char then none
    else if !isHex && !char.isDigit then none
    else countSeparators rest ⟨isHex, 0⟩

def convertSubids : List Char → Scan → Nat → Oid
  | [], _, element => [element]
  | _ :: rest, ⟨isHex, skip + 1⟩, element => convertSubids rest ⟨isHex, skip⟩ element
  | char :: rest, ⟨isHex, 0⟩, element =>
    if char = '.' then element :: convertSubids rest (if startsHex rest then ⟨true, 2⟩ else ⟨false, 0⟩) 0
    else if char = ':' then element :: convertSubids rest ⟨true, 0⟩ 0
    else if isHex then convertSubids rest ⟨true, 0⟩ ((element * 16 + hexDigit char) % 2 ^ 32)
    else convertSubids rest ⟨false, 0⟩ ((10 * element + (char.toNat - 48)) % 2 ^ 32)

-- a leading dot stands for a first sub-identifier 0
def tnmOidFromString (text : List Char) : Option Oid :=
  if text = [] then some []
  else
    match countSeparators text ⟨false, 0⟩ with
    | none => none
    | some dots =>
      if dots + 1 > tnmOidMaxSize then none
      else
        let oid := convertSubids text ⟨false, 0⟩ 0
        if oid.length < 2 ∨ oid.headD 0 > 2 then none else some oid

def sibling (subid : Nat) : MibTree → Option (MibNode × MibTree)
  | .nil => none
  | .node key value child next => if key = subid then some (value, child) else sibling subid next

def descend : MibTree → Oid → Nat
  | _, [] => 0
  | siblings, subid :: oid =>
    match sibling subid siblings with
    | some (_, children) => descend children oid + 1
    | none => 0

def nodeAt : MibTree → Oid → Option (MibNode × MibTree)
  | _, [] => none
  | siblings, [subid] => sibling subid siblings
  | siblings, subid :: oid =>
    match sibling subid siblings with
    | some (_, children) => nodeAt children oid
    | none => none

def childrenAt (tree : MibTree) (path : Oid) : MibTree := ((nodeAt tree path).map Prod.snd).getD .nil

def isPunct (char : Char) : Bool :=
  (33 ≤ char.toNat && char.toNat ≤ 47) || (58 ≤ char.toNat && char.toNat ≤ 64) ||
    (91 ≤ char.toNat && char.toNat ≤ 96) || (123 ≤ char.toNat && char.toNat ≤ 126)

/-- The cursor of `LookupOID` moves over one sub-identifier. -/
def skipSubid (text : List Char) : List Char := (text.dropWhile isPunct).dropWhile Char.isDigit

def lookupOID (tree : MibTree) (label : List Char) (exact : Bool) : Option (Oid × Int) :=
  let found :=
    if label = ['0'] then some [0]
    else if label = ['1'] then some [1]
    else if label = ['2'] then some [2]
    else tnmOidFromString label
  match found with
  | none => none
  | some oid =>
    match sibling (oid.headD 0) tree with
    | none => none
    | some (_, children) =>
      let steps := descend children oid.tail
      if steps = oid.tail.length then some (oid.headD 0 :: oid.tail, -1)
      else if exact then none
      else some (oid.headD 0 :: oid.tail.take steps, label.length - (skipSubid^[steps + 1] label).length)

/-- The offset of `LookupLabelOID` moves over one component. -/
def skipComponent (text : List Char) : List Char :=
  (match text with
    | '.' :: rest => rest
    | text => text).dropWhile (· != '.')

def lookupLabelOID (mib : Tables) (label : List Char) (exact : Bool) : Option (Oid × Int) :=
  if exact then none
  else
    let name := label.takeWhile (· != '.')
    let oid := label.dropWhile (· != '.')
    if oid ≠ [] ∧ tnmIsOid oid then
      match mib.nodeHashTable name with
      | some (some path) =>
        if name.length ≠ 0 then
          let subids := (tnmOidFromString oid).getD []
          let steps := descend (childrenAt mib.mibTree path) subids
          some (path ++ subids.take steps, label.length - (skipComponent^[steps] oid).length)
        else some (path, 0)
      | _ => none
    else none

def decimalValue (digits : List Char) : Nat := digits.foldl (fun number digit => 10 * number + (digit.toNat - 48)) 0

/-- The sub-identifier a head can stand for; `atoi` is undefined beyond an int, here it wraps. -/
def headNumber (head : List Char) : Nat :=
  if head.all Char.isDigit then decimalValue head % 2 ^ 32 else 2 ^ 32 - 1

/-- The offset when a node was found below or at a head that ends before `position`. -/
def adjustOffset (offset : Int) (position : Nat) (tail : List Char) : Int :=
  if offset < (position : Int) - 1 ∧ offset ≠ -2 then (if tail = [] then -2 else (position : Int) - 1) else offset

/-- The siblings from here on; `start` is the length of the whole name. -/
def lookupLabel (start : Nat) (moduleName : List Char) (exact : Bool) :
    MibTree → List Char → Bool → Option (Oid × Int)
  | .nil, _, _ => none
  | .node subid node child next, label, fuzzy =>
    let head := label.takeWhile (· != '.')
    let tail := (label.dropWhile (· != '.')).drop 1
    let position := start - tail.length
    let named := (head == node.label && (moduleName.isEmpty || some moduleName == node.moduleName)) ||
      headNumber head == subid
    let direct :=
      if named then
        if tail = [] then some ([subid], adjustOffset (-1) position tail)
        else if child ≠ .nil then
          (lookupLabel start moduleName exact child tail false).map fun found =>
            (subid :: found.1, adjustOffset found.2 position tail)
        else if !exact then some ([subid], adjustOffset (-1) position tail)
        else none
      else none
    let deeper :=
      if fuzzy then
        (lookupLabel start moduleName exact child label true).map fun found =>
          (subid :: found.1, adjustOffset found.2 position tail)
      else none
    (direct.or deeper).or (lookupLabel start moduleName exact next label fuzzy)

/-- A name in front of `!`, `::` or, if it is capitalised, of a dot is that of a module. -/
def splitModule (name : List Char) : Option (List Char × List Char × Nat) :=
  let colon := name.dropWhile (· != ':')
  let front :=
    if '!' ∈ name then some (name.takeWhile (· != '!'))
    else if colon.take 2 = [':', ':'] then some (name.takeWhile (· != ':'))
    else if name.head?.any Char.isUpper && name.contains '.' then some (name.takeWhile (· != '.'))
    else none
  front.map fun moduleName =>
    let rest := name.drop (moduleName.length + 1)
    let extra := if rest.head? = some ':' then 1 else 0
    (moduleName, rest.drop extra, moduleName.length + 1 + extra)

def lookupName (mib : Tables) (moduleName name : List Char) (exact : Bool) : Option (Oid × Int) :=
  if tnmIsOid name then lookupOID mib.mibTree name exact
  else
    match mib.nodeHashTable name with
    | some (some path) => some (path, -1)
    | _ =>
      (lookupLabelOID mib name exact).or
        (lookupLabel name.length moduleName exact mib.mibTree name true)

def tnmMibFindNode (mib : Tables) (name : List Char) (exact : Bool) : Option (Oid × Int) :=
  let (moduleName, rest, moved) := (splitModule name).getD ([], name, 0)
  let moduleName := if moduleName.length < 255 then moduleName else "********".toList
  let rest := (tnmHexToOid rest).getD rest
  match lookupName mib moduleName rest exact with
  | none => none
  | some (path, offset) =>
    match (nodeAt mib.mibTree path).bind fun found => found.1.moduleName with
    | some known =>
      if moduleName = [] then some (path, offset)
      else if moduleName = known then some (path, if offset > 0 then offset + moved else offset)
      else none
    | none => some (path, offset)

def suffixText (oid : Oid) : List Char := oid.flatMap fun subid => '.' :: subidText subid

def pathText : Oid → List Char
  | [] => []
  | subid :: oid => subidText subid ++ suffixText oid

/-- The outer `none` is a text that runs over the end of its buffer. -/
def tnmMibGetOid (mib : Tables) (label : List Char) : Option (Option (List Char)) :=
  let label := (tnmHexToOid label).getD label
  match tnmMibFindNode mib label false with
  | none => some none
  | some (path, offset) =>
    if tnmIsOid label then some (some label)
    else
      let text := pathText path ++ if offset > 0 then label.drop offset.toNat else []
      if text.length < tnmOidMaxSize * 8 then some (some text) else none

end Tnm.Mib
