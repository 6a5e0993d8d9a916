import TkinedRemix.Lib.Increasing
import TkinedRemix.Lib.SiblingTree

/-!
The instance tree of the SNMP agent (`tnmSnmpInst.c`), kept as the source links it; a NULL pointer is `nil`. The
label of a node is kept as the object identifier its text denotes.
-/

namespace Tnm

open Lib

/-- Sub-identifiers are unsigned 32 bit numbers; the places whose arithmetic can wrap reduce it. -/
abbrev Oid := List Nat

def tnmOidCompare : Oid → Oid → Int
  | [], [] => 0
  | [], _ :: _ => -1
  | _ :: _, [] => 1
  | left :: leftRest, right :: rightRest =>
    if left < right then -1
    else if right < left then 1
    else tnmOidCompare leftRest rightRest

inductive Access where
  | noAccess | forNotify | readOnly | readWrite | readCreate
deriving Repr, DecidableEq

inductive SnmpEvent where
  | get | set | create | trap | inform | check | commit | rollback | begin | finish | send | recv
deriving Repr, DecidableEq

structure Binding where
  event : SnmpEvent
  command : Option String
deriving Repr, DecidableEq

/-- `TnmSnmpNode` without its links and its sub-identifier, which the tree holds. -/
structure Node where
  label : Oid
  offset : Nat
  asn1Syntax : Nat
  access : Access
  tclVarName : Option String
  bindings : List Binding
deriving Repr, DecidableEq

abbrev InstTree := SiblingTree Nat Node

def blankNode (label : Oid) (offset : Nat) : Node :=
  { label, offset, asn1Syntax := 0, access := .noAccess, tclVarName := none, bindings := [] }

def insertBehind (subid : Nat) (value : Node) : InstTree → InstTree
  | .nil => .nil
  | .node key here child .nil => .node key here child (.node subid value .nil .nil)
  | .node key here child (.node nextKey nextHere nextChild rest) =>
    if nextKey < subid then
      .node key here child (insertBehind subid value (.node nextKey nextHere nextChild rest))
    else .node key here child (.node subid value .nil (.node nextKey nextHere nextChild rest))

def insertSibling (subid : Nat) (value : Node) : InstTree → InstTree
  | .nil => .node subid value .nil .nil
  | .node key here child next =>
    if subid < key then .node subid value .nil (.node key here child next)
    else insertBehind subid value (.node key here child next)

def updateSibling (subid : Nat) (change : Node → InstTree → Node × InstTree) : InstTree → InstTree
  | .nil => .nil
  | .node key here child next =>
    if key = subid then .node key (change here child).1 (change here child).2 next
    else .node key here child (updateSibling subid change next)

/-- The loop of `AddNode` below the node `done`; `assign` fills in the last node. -/
def addPath (offset : Nat) (assign : Node → Node) : Oid → Oid → InstTree → InstTree
  | _, [], siblings => siblings
  | done, subid :: rest, siblings =>
    let present := if subid ∈ siblings.keys then siblings
      else insertSibling subid (blankNode (done ++ [subid]) offset) siblings
    updateSibling subid (fun here child =>
      match rest with
      | [] => (assign here, child)
      | _ => (here, addPath offset assign (done ++ [subid]) rest child)) present

def withRoot : InstTree → InstTree
  | .nil => .node 1 (blankNode [1] 0) .nil .nil
  | tree => tree

def onRootChildren (change : InstTree → InstTree) : InstTree → InstTree
  | .nil => .nil
  | .node key here child next => .node key here (change child) next

/-- `AddNode`. The returned pointer is represented by the object identifier of the node. -/
def addNode (tree : InstTree) (soid : Oid) (offset asn1Syntax : Nat) (access : Access)
    (tclVarName : Option String) : InstTree × Option Oid :=
  match soid with
  | 1 :: rest =>
    let assign := fun here : Node =>
      { here with label := 1 :: rest, offset, asn1Syntax, access, tclVarName }
    (onRootChildren (addPath offset assign [1] rest) (withRoot tree), some (1 :: rest))
  | _ => (withRoot tree, none)

def findSibling (subid : Nat) : InstTree → Option (Node × InstTree)
  | .nil => none
  | .node key here child next => if key = subid then some (here, child) else findSibling subid next

def nodeAt : Oid → InstTree → Option Node
  | [], _ => none
  | subid :: rest, siblings =>
    match findSibling subid siblings with
    | none => none
    | some (here, child) => if rest = [] then some here else nodeAt rest child

/-- `FindNode`. An object identifier of length one is never found: the loop does not run. -/
def findNode (tree : InstTree) (oid : Oid) : Option Node :=
  match tree, oid with
  | .node _ _ child _, 1 :: rest => nodeAt rest child
  | _, _ => none

/-- `FindNextNode`. `skip` passes over smaller siblings; the static `force` flag is threaded through. -/
def findNextNodeFrom (skip : Bool) : InstTree → Oid → Bool → Option Node × Bool
  | .nil, _, force => (none, force)
  | .node subid here child next, oid, force =>
    if skip ∧ oid ≠ [] ∧ subid < oid.headD 0 then findNextNodeFrom true next oid force
    else if child ≠ .nil then
      if oid ≠ [] ∧ subid = oid.headD 0 then
        -- descend, positive match
        match findNextNodeFrom true child oid.tail force with
        | (some inst, force') => (some inst, force')
        | (none, force') => findNextNodeFrom false next oid force'
      else if here.asn1Syntax ≠ 0 then (some here, force)
      else
        -- descend and take whatever comes next
        match findNextNodeFrom true child [] true with
        | (some inst, force') => (some inst, force')
        | (none, force') => findNextNodeFrom false next oid force'
    else if oid = [] ∧ here.asn1Syntax ≠ 0 then (some here, force)
    else if ((oid ≠ [] ∧ subid ≠ oid.headD 0) ∨ force) ∧ here.asn1Syntax ≠ 0 then (some here, force)
    else findNextNodeFrom false next oid true

def findNextNode (tree : InstTree) (oid : Oid) : Option Node :=
  (findNextNodeFrom true tree oid false).1

def carries (varName : String) (node : Node) : Bool :=
  node.tclVarName = some varName

def dropBoundHead (varName : String) : InstTree → InstTree
  | .nil => .nil
  | .node key here child next => if carries varName here then next else .node key here child next

/-- `RemoveNode`; the successor of an unlinked node is not tested. -/
def removeNode (varName : String) : InstTree → InstTree
  | .nil => .nil
  | .node key here child .nil => .node key here (dropBoundHead varName (removeNode varName child)) .nil
  | .node key here child (.node nextKey nextHere nextChild rest) =>
    .node key here (dropBoundHead varName (removeNode varName child))
      (if carries varName nextHere then removeNode varName rest
       else removeNode varName (.node nextKey nextHere nextChild rest))

/-- The name `DeleteNodeProc` rebuilds from the two parts that the unset trace passes. -/
def traceVarName (name1 : String) : Option String → String
  | none => name1
  | some name2 => name1 ++ "(" ++ name2 ++ ")"

def deleteNodeProc (tree : InstTree) (name1 : String) (name2 : Option String) : InstTree :=
  removeNode (traceVarName name1 name2) tree

def modifyNode (change : Node → Node) : Oid → InstTree → InstTree
  | [], siblings => siblings
  | subid :: rest, siblings =>
    updateSibling subid (fun here child =>
      match rest with
      | [] => (change here, child)
      | _ => (here, modifyNode change rest child)) siblings

def replaceBinding (stored : Binding) : List Binding → List Binding
  | [] => []
  | binding :: rest =>
    if binding.event = stored.event then stored :: rest else binding :: replaceBinding stored rest

def storeBinding (event : SnmpEvent) (command : String) (bindings : List Binding) : List Binding :=
  let stored : Binding := ⟨event, if command = "" then none else some command⟩
  if bindings.any (·.event = event) then replaceBinding stored bindings else stored :: bindings

/-- `TnmSnmpSetNodeBinding`: an unknown node is created without a syntax. -/
def tnmSnmpSetNodeBinding (tree : InstTree) (oid : Oid) (event : SnmpEvent)
    (command : Option String) : InstTree :=
  let (tree', target) := match findNode tree oid with
    | some _ => (tree, some oid)
    | none => addNode tree oid 0 0 .noAccess none
  match target, command with
  | some path, some text =>
    modifyNode (fun here => { here with bindings := storeBinding event text here.bindings }) path tree'
  | _, _ => tree'

def instances (tree : InstTree) : List (Oid × Node) :=
  tree.paths.filter fun entry => entry.2.asn1Syntax ≠ 0

def getNextWalk (tree : InstTree) (fuel : Nat) (oid : Oid) : List Node :=
  successorWalk (findNextNode tree) Node.label fuel oid

inductive ReachableTree : InstTree → Prop
  | empty : ReachableTree .nil
  | add {tree} (soid : Oid) (offset asn1Syntax : Nat) (access : Access) (tclVarName : Option String) :
      ReachableTree tree → ReachableTree (addNode tree soid offset asn1Syntax access tclVarName).1
  | bind {tree} (oid : Oid) (event : SnmpEvent) (command : Option String) :
      ReachableTree tree → ReachableTree (tnmSnmpSetNodeBinding tree oid event command)
  | delete {tree} (name1 : String) (name2 : Option String) :
      ReachableTree tree → ReachableTree (deleteNodeProc tree name1 name2)

end Tnm
