import TkinedRemix.Lib.SiblingStore
import TkinedRemix.Mib.Lookup

/-!
Building the MIB tree from the lists of nodes the parser returns, `tnmMibTree.c`. The lists of `nodehashtab` are
linked by the same pointers as the siblings of the tree. Pointers to pointers are places.
-/

namespace Tnm.Mib

open Lib Function

structure Parsed where
  label : List Char
  parentName : Option (List Char)
  moduleName : Option (List Char)
  subid : Nat
deriving DecidableEq

structure Links where
  nextPtr : Option Nat
  childPtr : Option Nat
deriving DecidableEq

structure Memory where
  node : Nat → Parsed
  links : Nat → Links
  nodehashtab : Nat → Option Nat
  nodeHashTable : List Char → Option (Option Nat)
  tnmMibTree : Option Nat
  size : Nat

inductive Place where
  | bucket (hash : Nat)
  | next (address : Nat)
  | child (address : Nat)
deriving DecidableEq

def nodeHashSize : Nat := 127

def hashNodeLabel (label : List Char) : Nat := (label.map Char.toNat).sum % nodeHashSize

def Memory.subid (memory : Memory) (address : Nat) : Nat := (memory.node address).subid

def Memory.load (memory : Memory) : Place → Option Nat
  | .bucket hash => memory.nodehashtab hash
  | .next address => (memory.links address).nextPtr
  | .child address => (memory.links address).childPtr

def Memory.setLinks (memory : Memory) (address : Nat) (links : Links) : Memory :=
  { memory with links := update memory.links address links }

def Memory.store (memory : Memory) (pointer : Option Nat) : Place → Memory
  | .bucket hash => { memory with nodehashtab := update memory.nodehashtab hash pointer }
  | .next address => memory.setLinks address { memory.links address with nextPtr := pointer }
  | .child address => memory.setLinks address { memory.links address with childPtr := pointer }

def hashNode (memory : Memory) (address : Nat) : Memory :=
  let label := (memory.node address).label
  match memory.nodeHashTable label with
  | none => { memory with nodeHashTable := update memory.nodeHashTable label (some (some address)) }
  | some entry =>
    if entry = some address then memory
    else { memory with nodeHashTable := update memory.nodeHashTable label (some none) }

/-- The nodes are moved in front of the lists; a node without a parent's name ends this. -/
def hashNodes : Nat → Option Nat → Memory → Option Memory
  | _, none, memory => some memory
  | 0, some _, _ => none
  | fuel + 1, some address, memory =>
    match (memory.node address).parentName with
    | none => some memory
    | some parentName =>
      let hash := hashNodeLabel parentName
      let nextp := (memory.links address).nextPtr
      let memory := memory.store (memory.nodehashtab hash) (.next address)
      hashNodes fuel nextp (memory.store (some address) (.bucket hash))

def hashNodeList (fuel : Nat) (nodeList : Option Nat) (memory : Memory) : Option Memory :=
  hashNodes fuel nodeList { memory with nodehashtab := fun _ => none }

def skipSmaller (memory : Memory) (subid : Nat) : Nat → Place → Option Place
  | 0, _ => none
  | fuel + 1, ptr =>
    match memory.load ptr with
    | none => some ptr
    | some address =>
      if memory.subid address < subid then skipSmaller memory subid fuel (.next address) else some ptr

/-- The node is linked unless its sub-identifier is taken; the child with this one is returned. -/
def linkNode (fuel : Nat) (memory : Memory) (root thisNode : Nat) : Option (Memory × Nat) := do
  let ptr ← skipSmaller memory (memory.subid thisNode) fuel (.child root)
  let linked := hashNode ((memory.store (memory.load ptr) (.next thisNode)).store (some thisNode) ptr) thisNode
  match memory.load ptr with
  | none => return (linked, thisNode)
  | some address =>
    if memory.subid address = memory.subid thisNode then return (memory, address)
    else return (linked, thisNode)

/-- The loop of `BuildSubTree` at `*np`. -/
def buildLoop : Nat → Nat → Place → Memory → Option Memory
  | 0, _, _, _ => none
  | fuel + 1, root, np, memory =>
    match memory.load np with
    | none => some memory
    | some thisNode =>
      if (memory.node thisNode).parentName = some (memory.node root).label then do
        let memory := memory.store (memory.links thisNode).nextPtr np
        let (memory, child) ← linkNode fuel (memory.setLinks thisNode ⟨none, none⟩) root thisNode
        let memory ← buildLoop fuel child (.bucket (hashNodeLabel (memory.node child).label)) memory
        buildLoop fuel root np memory
      else buildLoop fuel root (.next thisNode) memory

def buildSubTree (fuel root : Nat) (memory : Memory) : Option Memory :=
  buildLoop fuel root (.bucket (hashNodeLabel (memory.node root).label)) memory

def unknownParent : Option (List Char) := some "(unknown)".toList

def rootNodes : List Parsed :=
  [⟨"ccitt".toList, unknownParent, none, 0⟩, ⟨"iso".toList, unknownParent, none, 1⟩,
    ⟨"joint-iso-ccitt".toList, unknownParent, none, 2⟩]

def Memory.allocate (memory : Memory) (nodes : List Parsed) : Memory :=
  { memory with
    node := fun address =>
      if memory.size ≤ address then (nodes[address - memory.size]?).getD (memory.node address) else memory.node address
    links := fun address =>
      if memory.size ≤ address ∧ address < memory.size + nodes.length then
        ⟨if address + 1 < memory.size + nodes.length then some (address + 1) else none, none⟩
      else memory.links address
    size := memory.size + nodes.length }

def buildTree (fuel : Nat) (nodeList : Option Nat) (memory : Memory) : Option Memory := do
  let memory ← hashNodeList fuel nodeList memory
  let ccitt := memory.size
  let memory ← buildSubTree fuel ccitt (memory.allocate rootNodes)
  let memory ← buildSubTree fuel (ccitt + 1) memory
  let memory ← buildSubTree fuel (ccitt + 2) memory
  return { memory with tnmMibTree := some ccitt }

abbrev AddressTree := SiblingTree Nat Nat

def Memory.tree (memory : Memory) : Option AddressTree :=
  readSiblings Links.nextPtr Links.childPtr memory.subid memory.links memory.size memory.tnmMibTree

def Memory.mibNode (memory : Memory) (address : Nat) : MibNode :=
  ⟨(memory.node address).label, (memory.node address).moduleName⟩

def addressAt (tree : AddressTree) (path : Oid) : Option Nat :=
  (tree.paths.find? fun entry => entry.1 == path).map Prod.snd

/-- `TnmMibFindNode` for exact names, with the address of the node. -/
def findNode (memory : Memory) (tree : AddressTree) (name : List Char) : Option Nat :=
  let (moduleName, rest, _) := (splitModule name).getD ([], name, 0)
  let moduleName := if moduleName.length < 255 then moduleName else "********".toList
  let rest := (tnmHexToOid rest).getD rest
  let mibTree := tree.map memory.mibNode
  let found :=
    if tnmIsOid rest then (lookupOID mibTree rest true).bind fun found => addressAt tree found.1
    else
      match memory.nodeHashTable rest with
      | some (some address) => some address
      | _ => (lookupLabel rest.length moduleName true mibTree rest true).bind fun found => addressAt tree found.1
  found.filter fun address =>
    match (memory.node address).moduleName with
    | some known => moduleName.isEmpty || moduleName == known
    | none => true

def Memory.hashed (memory : Memory) : Option (List Nat) :=
  ((List.range nodeHashSize).mapM fun hash =>
    follow Links.nextPtr (fun address => some (memory.links address)) memory.size (memory.nodehashtab hash)).map
    List.flatten

def knownParent (memory : Memory) : Option (Option Nat) := do
  let tree ← memory.tree
  let hashed ← memory.hashed
  return hashed.findSome? fun address => (memory.node address).parentName.bind (findNode memory tree)

/-- From the label `repeat` on. -/
def buildKnown : Nat → Memory → Option Memory
  | 0, _ => none
  | fuel + 1, memory => do
      match ← knownParent memory with
      | none => return memory
      | some tree =>
        let memory ← buildSubTree fuel tree memory
        buildKnown fuel memory

def buildAnchor (fuel : Nat) : Option Nat → Memory → Option Memory
  | some tree, memory => buildSubTree fuel tree memory
  | none, memory => some memory

/-- `TnmMibAddNode` as soon as there is a tree: the new memory, and whether all nodes have a parent. -/
def addToTree (fuel : Nat) (nodeList : Option Nat) (memory : Memory) : Option (Memory × Bool) := do
  let nodes ← follow Links.nextPtr (fun address => some (memory.links address)) fuel nodeList
  let last ← nodes.getLast?
  -- a null pointer is not a name
  let parentName ← (memory.node last).parentName
  let found := findNode memory (← memory.tree) parentName
  let memory ← hashNodeList fuel nodeList memory
  let memory ← buildAnchor fuel found memory
  let memory ← buildKnown fuel memory
  return (memory, (← memory.hashed).isEmpty)

def tnmMibAddNode (fuel : Nat) (nodeList : Option Nat) (memory : Memory) : Option (Memory × Bool) :=
  match nodeList with
  | none => some (memory, true)
  | some first =>
    if memory.tnmMibTree.isNone then (buildTree fuel (some first) memory).bind (addToTree fuel (some first))
    else addToTree fuel (some first) memory

/-- A list the parser returns, the node it read last in front. -/
def addNodes (fuel : Nat) (parsed : List Parsed) (memory : Memory) : Option (Memory × Bool) :=
  tnmMibAddNode fuel (if parsed.isEmpty then none else some memory.size) (memory.allocate parsed)

def noMemory : Memory where
  node _ := ⟨[], none, none, 0⟩
  links _ := ⟨none, none⟩
  nodehashtab _ := none
  nodeHashTable _ := none
  tnmMibTree := none
  size := 0

end Tnm.Mib
