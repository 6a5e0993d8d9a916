import TkinedRemix.Tcl.Time

/-!
The items of the network maps (`tnmMap.c`, `tnmMapUtil.c` and the item types). Reading a freed record has no
result.
-/

namespace Tnm.Map

inductive ItemType where
  | node
  | port
  | network
  | link
  | group
deriving DecidableEq

def ItemType.name : ItemType → String
  | .node => "node"
  | .port => "port"
  | .network => "network"
  | .link => "link"
  | .group => "group"

def ItemType.parentType : ItemType → ItemType
  | .port => .node
  | _ => .group

inductive Edge where
  | parent
  | src
  | dst
deriving DecidableEq

inductive Vector where
  | members
  | links
deriving DecidableEq

def Edge.vector : Edge → Vector
  | .parent => .members
  | .src | .dst => .links

inductive Field where
  | color
  | font
  | icon
  | prio
  | ctime
  | mtime
  | expire
  | path
  | tags
  | store
  | name
  | address
deriving DecidableEq

inductive Opt where
  | field (field : Field)
  | edge (edge : Edge)
deriving DecidableEq

def ItemType.configTable : ItemType → List (Opt × String)
  | .node | .network =>
    [(.field .address, "-address"), (.field .color, "-color"), (.field .ctime, "-ctime"),
      (.field .expire, "-expire"), (.field .font, "-font"), (.edge .parent, "-group"), (.field .icon, "-icon"),
      (.field .mtime, "-mtime"), (.field .name, "-name"), (.field .path, "-path"),
      (.field .prio, "-priority"), (.field .store, "-store"), (.field .tags, "-tags")]
  | .port =>
    [(.field .address, "-address"), (.field .color, "-color"), (.field .ctime, "-ctime"),
      (.field .expire, "-expire"), (.field .mtime, "-mtime"), (.field .name, "-name"), (.edge .parent, "-node"),
      (.field .path, "-path"), (.field .prio, "-priority"), (.field .store, "-store"), (.field .tags, "-tags")]
  | .link =>
    [(.field .address, "-address"), (.field .color, "-color"), (.field .ctime, "-ctime"),
      (.edge .dst, "-dst"), (.field .expire, "-expire"), (.edge .parent, "-group"), (.field .mtime, "-mtime"),
      (.field .name, "-name"), (.field .path, "-path"), (.field .prio, "-priority"), (.edge .src, "-src"),
      (.field .store, "-store"), (.field .tags, "-tags")]
  | .group =>
    [(.field .address, "-address"), (.field .color, "-color"), (.field .ctime, "-ctime"),
      (.field .expire, "-expire"), (.edge .parent, "-group"), (.field .mtime, "-mtime"), (.field .name, "-name"),
      (.field .path, "-path"), (.field .prio, "-priority"), (.field .store, "-store"), (.field .tags, "-tags")]

/-- `TnmMapItem`. The token is the number in the name of the item's command. -/
structure Item where
  id : Nat
  mapPtr : Nat
  type : ItemType
  token : Nat
  x : Int
  y : Int
  name : String
  address : String
  path : String
  color : Option String
  font : Option String
  icon : Option String
  parent : Option Nat
  memberItems : List Nat
  linkedItems : List Nat
  srcPtr : Option Nat
  dstPtr : Option Nat
  expire : Nat
  priority : Nat
  ctime : TclTime
  mtime : TclTime
  tagList : String
  storeList : String
  attributes : List (String × String)
deriving DecidableEq

def handleName (type : ItemType) (number : Nat) : String := type.name ++ toString number

def Item.command (item : Item) : String := handleName item.type item.token

def Item.edge (item : Item) : Edge → Option Nat
  | .parent => item.parent
  | .src => item.srcPtr
  | .dst => item.dstPtr

def Item.setEdge (item : Item) (target : Option Nat) : Edge → Item
  | .parent => { item with parent := target }
  | .src => { item with srcPtr := target }
  | .dst => { item with dstPtr := target }

def Item.vector (item : Item) : Vector → List Nat
  | .members => item.memberItems
  | .links => item.linkedItems

def Item.setVector (item : Item) (elements : List Nat) : Vector → Item
  | .members => { item with memberItems := elements }
  | .links => { item with linkedItems := elements }

def Item.drop (vector : Vector) (element : Nat) (item : Item) : Item :=
  item.setVector ((item.vector vector).erase element) vector

def Item.add (vector : Vector) (element : Nat) (item : Item) : Item :=
  item.setVector (item.vector vector ++ [element]) vector

/-- The items of all the maps of an interpreter; the lists have the newest item first. -/
structure World where
  heap : Nat → Option Item
  itemList : List Nat
  nextPtr : Nat
  nextId : ItemType → Nat
  commands : List String
  loading : List Nat
  now : TclTime

def World.put (world : World) (item : Item) : World :=
  { world with heap := Function.update world.heap item.id (some item) }

def World.free (world : World) (id : Nat) : World := { world with heap := Function.update world.heap id none }

def World.modify (world : World) (id : Nat) (change : Item → Item) : Option World :=
  (world.heap id).map fun item => { world with heap := Function.update world.heap id (some (change item)) }

def World.modifyAt (world : World) (pointer : Option Nat) (change : Item → Item) : Option World :=
  match pointer with
  | none => some world
  | some id => world.modify id change

def World.items (world : World) (map : Nat) : List Item :=
  (world.itemList.filterMap world.heap).filter fun item => item.mapPtr == map

def findItem (world : World) (map : Nat) (name : String) : Option Item :=
  (world.items map).find? fun item => item.command == name

def touch (world : World) (item : Item) : Item :=
  if item.mapPtr ∈ world.loading then item else { item with mtime := world.now }

section

-- Tcl_GetIntFromObj
variable (getInt : String → Option Int)

def getUnsigned (value : String) : Option Nat :=
  (getInt value).bind fun number => if number < 0 then none else some number.toNat

/-- `SetOption` for the options that only change the item; none is an error. -/
def setField (world : World) (item : Item) (value : String) : Field → Option Item
  | .color => some { item with color := some value }
  | .font => some { item with font := some value }
  | .icon => some { item with icon := some value }
  | .name => some (touch world { item with name := value })
  | .address => some (touch world { item with address := value })
  | .prio => ((getUnsigned getInt value).filter (· ≤ 100)).map fun number => { item with priority := number }
  | .ctime =>
    ((getUnsigned getInt value).filter fun _ => item.mapPtr ∈ world.loading).map fun number =>
      { item with ctime := { item.ctime with sec := number } }
  | .mtime =>
    ((getUnsigned getInt value).filter fun _ => item.mapPtr ∈ world.loading).map fun number =>
      { item with mtime := { item.mtime with sec := number } }
  | .expire => (getUnsigned getInt value).map fun number => { item with expire := number }
  | .path => some { item with path := value }
  | .tags => some (touch world { item with tagList := value })
  | .store => some { item with storeList := value }

def setEndpoint (world : World) (item : Item) (side : Edge) (value : String) : Option (World × Bool) :=
  match findItem world item.mapPtr value with
  | none => some (world, false)
  | some target =>
    if target.type ≠ .network ∧ target.type ≠ .port then some (world, false)
    else
      (world.modifyAt (item.edge side) (Item.drop .links item.id)).bind fun world =>
        (world.modify target.id (Item.add .links item.id)).map fun world =>
          (world.put (touch world (item.setEdge (some target.id) side)), true)

def reaches (world : World) (target : Nat) : Nat → Option Nat → Option Bool
  | _, none => some false
  | 0, some _ => none
  | fuel + 1, some id =>
    if id = target then some true
    else (world.heap id).bind fun item => reaches world target fuel item.parent

def setParent (world : World) (item : Item) (value : String) : Option (World × Bool) :=
  if value = "" then
    (world.modifyAt item.parent (Item.drop .members item.id)).map fun world =>
      (world.put { item with parent := none }, true)
  else
    match findItem world item.mapPtr value with
    | none => some (world, false)
    | some target =>
      if target.type ≠ item.type.parentType then some (world, false)
      else
        (reaches world item.id world.nextPtr (some target.id)).bind fun loop =>
          if loop then some (world, false)
          else
            (world.modifyAt item.parent (Item.drop .members item.id)).bind fun world =>
              (world.modify target.id (Item.add .members item.id)).map fun world =>
                (world.put (touch world { item with parent := some target.id }), true)

/-- `SetOption`; the flag is the result. -/
def setOption (world : World) (id : Nat) (value : String) (option : Opt) : Option (World × Bool) :=
  (world.heap id).bind fun item =>
    match option with
    | .field field =>
      match setField getInt world item value field with
      | some changed => some (world.put changed, true)
      | none => some (world, false)
    | .edge .parent => setParent world item value
    | .edge side => setEndpoint world item side value

def setOptions (world : World) (id : Nat) : List (Opt × String) → Option (World × Bool)
  | [] => some (world, true)
  | (option, value) :: rest =>
    (setOption getInt world id value option).bind fun (world, ok) =>
      if ok then setOptions world id rest else some (world, false)

def tableKey (type : ItemType) (name : String) : Option Opt :=
  (type.configTable.find? fun entry => entry.2 == name).map Prod.fst

def readArguments (type : ItemType) (arguments : List (String × String)) : Option (List (Opt × String)) :=
  arguments.mapM fun (name, value) => (tableKey type name).map (·, value)

/-- `TnmMapItemConfigure`: an unknown option is found before anything is changed. -/
def configure (world : World) (id : Nat) (arguments : List (String × String)) : Option (World × Bool) :=
  (world.heap id).bind fun item =>
    match readArguments item.type arguments with
    | none => some (world, false)
    | some settings => setOptions getInt world id settings

end

section

def getHandle (used : List String) (type : ItemType) : Nat → Nat → Nat
  | 0, number => number
  | fuel + 1, number =>
    if handleName type number ∈ used then getHandle used type fuel (number + 1) else number

def World.names (world : World) : List String :=
  world.commands ++ (world.itemList.filterMap world.heap).map Item.command

def newItem (id map : Nat) (type : ItemType) : Item :=
  { id, mapPtr := map, type, token := 0, x := 0, y := 0, name := "", address := "", path := ""
    color := none, font := none, icon := none, parent := none, memberItems := [], linkedItems := []
    srcPtr := none, dstPtr := none, expire := 3600, priority := 0, ctime := .zero, mtime := .zero
    tagList := "", storeList := "", attributes := [] }

def Item.complete (item : Item) : Bool :=
  match item.type with
  | .link => item.srcPtr.isSome && item.dstPtr.isSome
  | .port => item.parent.isSome
  | _ => true

def Item.stamp (now : TclTime) (item : Item) : Item :=
  if item.ctime = .zero then { item with ctime := now, mtime := now } else item

/-- `CreateItem` after the type is known. An item that cannot be configured is freed as it is. -/
def createItem (getInt : String → Option Int) (world : World) (map : Nat) (type : ItemType)
    (arguments : List (String × String)) : Option (World × Option Nat) :=
  let id := world.nextPtr
  let allocated := { world.put (newItem id map type) with nextPtr := id + 1 }
  (configure getInt allocated id arguments).bind fun (world, ok) =>
    if !ok then some (world.free id, none)
    else
      (world.heap id).map fun item =>
        if !item.complete then (world.free id, none)
        else
          let number := getHandle world.names type (world.names.length + 1) (world.nextId type)
          ({ world.put { item.stamp world.now with token := number } with
              itemList := id :: world.itemList
              nextId := Function.update world.nextId type (number + 1) }, some id)

end

section

def deleteFirst (vector : Vector) (delete : World → Nat → Option World) (id : Nat) : Nat → World → Option World
  | 0, _ => none
  | fuel + 1, world =>
    (world.heap id).bind fun item =>
      match item.vector vector with
      | [] => some world
      | first :: _ => (delete world first).bind (deleteFirst vector delete id fuel)

def deleteAll (vector : Vector) (delete : World → Nat → Option World) (id : Nat) (world : World) : Option World :=
  (world.heap id).bind fun item => deleteFirst vector delete id ((item.vector vector).length + 1) world

def unhook (edge : Edge) (id : Nat) (world : World) : Option World :=
  (world.heap id).bind fun item => world.modifyAt (item.edge edge) (Item.drop edge.vector id)

def orphan (world : World) : List Nat → Option World
  | [] => some world
  | member :: rest =>
    (world.modify member fun item => { item with parent := none }).bind fun world => orphan world rest

/-- `ItemDeleteProc`: the calls nest, as a node deletes its ports, and an item the links it is an end of. -/
def itemDeleteProc : Nat → World → Nat → Option World
  | 0, _, _ => none
  | depth + 1, world, id =>
    (world.heap id).bind fun item =>
      let unlisted := { world with itemList := world.itemList.erase id }
      (if item.type = .node then deleteAll .members (itemDeleteProc depth) id unlisted
        else some unlisted).bind fun world =>
      (unhook .src id world).bind fun world =>
      (unhook .dst id world).bind fun world =>
      (unhook .parent id world).bind fun world =>
      (deleteAll .links (itemDeleteProc depth) id world).bind fun world =>
      (world.heap id).bind fun item =>
      (orphan world item.memberItems).map fun world => world.free id

def destroyItem (world : World) (id : Nat) : Option World := itemDeleteProc 3 world id

end

end Tnm.Map
