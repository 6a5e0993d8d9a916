import TkinedRemix.Snmp.InstOrder
import TkinedRemix.Snmp.Reception

/-!
The agent: `GetRequest` and `SetRequest` of `tnmSnmpAgent.c` with the instances of `tnmSnmpInst.c`. What scripts
keep elsewhere is `outside`.
-/

namespace Tnm

open Lib Function

/-- Scalars and elements by their full name, the names of arrays, and the unset traces on a variable. Namespace
qualifiers and links can give a variable more than one name. -/
structure TclVars where
  value : String → Option String
  isArray : String → Bool
  traces : String → Nat
  variableOf : String → String

/-- The array of a name such as `ifDescr(1)`. -/
def arrayOf (name : String) : Option String :=
  if '(' ∈ name.toList ∧ name.toList.getLast? = some ')' then
    some (String.ofList (name.toList.takeWhile (· ≠ '(')))
  else none

def TclVars.read (vars : TclVars) (name : String) : Option String := vars.value (vars.variableOf name)

/-- `Tcl_SetVar`. A scalar has no elements and an array has no value. -/
def TclVars.setVar (vars : TclVars) (name text : String) : Option TclVars :=
  let target := vars.variableOf name
  let value := update vars.value target (some text)
  match arrayOf target with
  | some base =>
    if (vars.value base).isSome then none
    else some { vars with value, isArray := update vars.isArray base true }
  | none => if vars.isArray target then none else some { vars with value }

def TclVars.unset (vars : TclVars) (name : String) : TclVars :=
  { vars with
    value := update vars.value (vars.variableOf name) none
    traces := update vars.traces (vars.variableOf name) 0 }

def TclVars.traceVar (vars : TclVars) (name : String) : TclVars :=
  { vars with traces := update vars.traces (vars.variableOf name) (vars.traces (vars.variableOf name) + 1) }

structure MibNode where
  label : String
  access : Access
  baseSyntax : Nat
  hasChild : Bool
  parentSyntax : Option Nat
deriving Repr, DecidableEq

abbrev Mib := Oid → Option MibNode

/-- `LookupOID`: descends as long as there is a child for the next sub-identifier. -/
def lookupBelow (mib : Mib) (path : Oid) (node : MibNode) : Oid → Oid × MibNode
  | [] => (path, node)
  | subid :: rest =>
    match mib (path ++ [subid]) with
    | some child => lookupBelow mib (path ++ [subid]) child rest
    | none => (path, node)

/-- `TnmMibFindNode` without the exact flag, with the object identifier of the node found. -/
def tnmMibFindNode (mib : Mib) : Oid → Option (Oid × MibNode)
  | [] => none
  | subid :: rest => (mib [subid]).map fun node => lookupBelow mib [subid] node rest

def oidText (oid : Oid) : String := (tnmOidToStr oid).getD ""

/-- `TnmMibGetName`: the label of the node and the sub-identifiers behind it. -/
def tnmMibGetName (mib : Mib) (oid : Oid) : Option String :=
  (tnmMibFindNode mib oid).map fun found =>
    if oid.length ≤ found.1.length then found.2.label
    else found.2.label ++ "." ++ oidText (oid.drop found.1.length)

/-- `SetRequest` turns `ifDescr.1` into `ifDescr(1)`. -/
def instanceVarName (name : String) : String :=
  let (label, rest) := name.toList.span (· ≠ '.')
  match rest with
  | [] => String.ofList (label ++ [')'])
  | _ :: index => String.ofList (label ++ '(' :: index ++ [')'])

structure AgentState (σ : Type) where
  instTree : InstTree
  reachable : ReachableTree instTree
  vars : TclVars
  result : String
  outside : σ

/-- What `TnmSnmpEvalCallback` substitutes into a command bound to an instance. -/
structure Callback where
  command : String
  label : Oid
  instOid : String
  value : String
  oldValue : Option String
deriving Repr, DecidableEq

/-- A response under construction. The elements of a sublist that an error left open are kept. -/
structure Response where
  errorStatus : Int
  errorIndex : Int
  varBinds : List VarBind
  unclosed : Option (List String)
deriving Repr, DecidableEq

structure AgentEnv (σ : Type) where
  mib : Mib
  eval : Callback → AgentState σ → AgentState σ × TclCode
  textLength : Response → Nat

section

variable {σ : Type} (env : AgentEnv σ)

/-- `Tcl_GetVar` leaves a message behind when the variable has no value. -/
def getVar (name : String) (state : AgentState σ) : AgentState σ × Option String :=
  match state.vars.read name with
  | some text => (state, some text)
  | none => ({ state with result := "can't read \"" ++ name ++ "\": no such variable" }, none)

/-- The traces of a variable remove the nodes that are bound to the name by which it is unset, one call for each
trace. -/
def removeTraced (name : String) : Nat → InstTree → InstTree
  | 0, tree => tree
  | count + 1, tree => removeTraced name count (removeNode name tree)

theorem removeTraced_reachable (name : String) (count : Nat) {tree : InstTree} (reachable : ReachableTree tree) :
    ReachableTree (removeTraced name count tree) := by
  induction count generalizing tree with
  | zero => exact reachable
  | succ _ ih => exact ih (ReachableTree.delete name none reachable)

def unsetVar (name : String) (state : AgentState σ) : AgentState σ :=
  { state with
    instTree := removeTraced name (state.vars.traces (state.vars.variableOf name)) state.instTree
    reachable := removeTraced_reachable name _ state.reachable
    vars := state.vars.unset name }

def findInstance (tree : InstTree) (oid : Oid) : Option Node :=
  (findNode tree oid).filter fun inst => inst.asn1Syntax ≠ 0

def findNextInstance (tree : InstTree) (oid : Oid) : Option Node :=
  (findNextNode tree oid).filter fun inst => inst.asn1Syntax ≠ 0

def boundTo (event : SnmpEvent) (node : Node) : Option String :=
  (node.bindings.find? fun binding => binding.event == event).bind Binding.command

/-- `TnmSnmpEvalNodeBinding`; a binding that deletes its own node has failed. -/
def evalUpwards (event : SnmpEvent) (oid : Oid) (instOid value : String) (oldValue : Option String) :
    Nat → TclCode → AgentState σ → AgentState σ × TclCode
  | 0, code, state => (state, code)
  | len + 1, code, state =>
    match findNode state.instTree (oid.take (len + 1)) with
    | none => evalUpwards event oid instOid value oldValue len code state
    | some node =>
      match boundTo event node with
      | none => evalUpwards event oid instOid value oldValue len code state
      | some command =>
        let (after, result) := env.eval ⟨command, node.label, instOid, value, oldValue⟩ state
        let code := if result = .ok ∧ findNode after.instTree (oid.take (len + 1)) = none then .error else result
        if code = .break_ ∨ code = .error then (after, code)
        else evalUpwards event oid instOid value oldValue len code after

def tnmSnmpEvalNodeBinding (event : SnmpEvent) (inst : Node) (value : String) (oldValue : Option String)
    (state : AgentState σ) : AgentState σ × TclCode :=
  evalUpwards env event inst.label (String.ofList ((oidText inst.label).toList.drop inst.offset)) value oldValue
    inst.label.length .ok state

def asn1SequenceSyntax : Nat := asn1Sequence.toNat

/-- The checks of `TnmSnmpCreateNode`; the number is the offset of the instance identifier. -/
def creatable (label : Oid) : Option (MibNode × Nat) :=
  match tnmMibFindNode env.mib label with
  | none => none
  | some (base, node) =>
    if node.hasChild ∨ label.length ≤ base.length ∨ node.access = .noAccess then none
    else
      match node.parentSyntax with
      | none => none
      | some parent =>
        if parent ≠ asn1SequenceSyntax ∧ label.drop base.length ≠ [0] then none
        else some (node, (dottedText base).length)

def bindNode (label : Oid) (node : MibNode) (offset : Nat) (tclVarName : String) (vars : TclVars)
    (state : AgentState σ) : AgentState σ :=
  { state with
    instTree := (addNode state.instTree label offset node.baseSyntax node.access (some tclVarName)).1
    reachable := ReachableTree.add label offset node.baseSyntax node.access (some tclVarName) state.reachable
    vars := vars.traceVar tclVarName
    result := "" }

/-- `TnmSnmpCreateNode`. Without a default value the variable is not set. -/
def tnmSnmpCreateNode (label : Oid) (tclVarName : String) (defval : Option String) (state : AgentState σ) :
    AgentState σ × TclCode :=
  match creatable env label with
  | none => (state, .error)
  | some (node, offset) =>
    match defval with
    | none => (bindNode label node offset tclVarName state.vars state, .ok)
    | some text =>
      match state.vars.setVar tclVarName text with
      | none => (state, .error)
      | some vars => (bindNode label node offset tclVarName vars state, .ok)

def noError : Int := 0
def tooBig : Int := 1
def noSuchName : Int := 2
def badValue : Int := 3
def genErr : Int := 5
def wrongType : Int := 7
def noCreation : Int := 11
def notWritable : Int := 17

def tnmSnmpErrorTable : List (Int × String) :=
  [(0, "noError"), (1, "tooBig"), (2, "noSuchName"), (3, "badValue"), (4, "readOnly"), (5, "genErr"),
    (6, "noAccess"), (7, "wrongType"), (8, "wrongLength"), (9, "wrongEncoding"), (10, "wrongValue"),
    (11, "noCreation"), (12, "inconsistentValue"), (13, "resourceUnavailable"), (14, "commitFailed"),
    (15, "undoFailed"), (16, "authorizationError"), (17, "notWritable"), (18, "inconsistentName"),
    (254, "endOfWalk"), (255, "noResponse")]

def tclErrorStatus (state : AgentState σ) : Int := (tnmGetTableKey tnmSnmpErrorTable state.result).getD genErr

def syntaxName (inst : Node) : String :=
  (tnmGetTableValue (tnmSnmpTypeTable.map fun entry => (entry.1.toNat, entry.2)) inst.asn1Syntax).getD ""

def Response.fits (response : Response) : Response :=
  if tnmSnmpMaxSize ≤ env.textLength response then { response with errorStatus := tooBig, errorIndex := 0 }
  else response

/-- How the turn of a varbind ends: with a varbind, or with an error that may leave a sublist open. -/
inductive Answer where
  | bound (varBind : VarBind)
  | failed (errorStatus : Int) (unclosed : Option (List String))
deriving Repr, DecidableEq

def missingAnswer (version : SnmpVersion) (type : PduType) (oid : Oid) : Answer :=
  if version = .v1 then .failed noSuchName none
  else if type = .get then
    match tnmMibFindNode env.mib oid with
    | none => .bound ⟨oid, "noSuchObject", ""⟩
    | some (_, node) => if node.hasChild then .bound ⟨oid, "noSuchObject", ""⟩ else .bound ⟨oid, "noSuchInstance", ""⟩
  else .bound ⟨oid, "endOfMibView", ""⟩

def Node.varName (inst : Node) : String := inst.tclVarName.getD ""

def foundAnswer (inst : Node) (value : String) (state : AgentState σ) : AgentState σ × Answer :=
  let opened := [oidText inst.label, syntaxName inst]
  let (state, code) := tnmSnmpEvalNodeBinding env .get inst value none state
  if code = .error then (state, .failed (tclErrorStatus state) (some opened))
  else
    match getVar inst.varName state with
    | (state, none) => (state, .failed genErr (some opened))
    | (state, some text) => ({ state with result := "" }, .bound ⟨inst.label, syntaxName inst, text⟩)

/-- The names of a request are texts that `TnmGetOidFromObj` has to accept. -/
def readableName (oid : Oid) : Bool := ((tnmOidToStr oid).bind tnmStrToOid).isSome

def requestedInstance (type : PduType) (tree : InstTree) (oid : Oid) : Option Node :=
  if type = .getnext ∨ type = .getbulk then findNextInstance tree oid else findInstance tree oid

def getVarBind (version : SnmpVersion) (type : PduType) (varBind : VarBind) (state : AgentState σ) :
    AgentState σ × Answer :=
  if readableName varBind.soid then
    match requestedInstance type state.instTree varBind.soid with
    | none => (state, missingAnswer env version type varBind.soid)
    | some inst => foundAnswer env inst varBind.value state
  else (state, .failed genErr none)

def getVarBinds (version : SnmpVersion) (type : PduType) :
    List VarBind → Response → AgentState σ → AgentState σ × Response
  | [], response, state => (state, response)
  | varBind :: rest, response, state =>
    match getVarBind env version type varBind state with
    | (state, .bound bound) =>
      getVarBinds version type rest { response with varBinds := response.varBinds ++ [bound] } state
    | (state, .failed errorStatus unclosed) =>
      (state, { response with errorStatus, errorIndex := response.varBinds.length + 1, unclosed })

def emptyResponse : Response := ⟨noError, 0, [], none⟩

def getRequest (version : SnmpVersion) (type : PduType) (varBinds : List VarBind) (state : AgentState σ) :
    AgentState σ × Response :=
  let (state, response) := getVarBinds env version type varBinds emptyResponse state
  (state, response.fits env)

/-- `SNMP_VarBind`: the old value is the client data, `created` the flag `NODE_CREATED`. -/
structure SetItem where
  varBind : VarBind
  oldValue : Option String
  created : Bool
deriving Repr, DecidableEq

structure Write where
  inst : Node
  varBind : VarBind
deriving Repr, DecidableEq

/-- A turn of the first loop. A varbind that is refused has no part in the rollback. -/
structure SetTurn (σ : Type) where
  state : AgentState σ
  item : Option SetItem
  writes : List Write
  answer : Answer

def setAnswer (inst : Node) (item : SetItem) (writes : List Write) (state : AgentState σ) : SetTurn σ :=
  match getVar inst.varName state with
  | (state, none) => ⟨state, some item, writes, .failed genErr (some [oidText inst.label, syntaxName inst])⟩
  | (state, some text) =>
    ⟨{ state with result := "" }, some item, writes, .bound ⟨inst.label, syntaxName inst, text⟩⟩

def setCreated (inst : Node) (varBind : VarBind) (state : AgentState σ) : SetTurn σ :=
  let item : SetItem := ⟨varBind, none, true⟩
  let writes := [⟨inst, varBind⟩]
  let (state, code) := tnmSnmpEvalNodeBinding env .create inst varBind.value none state
  if code = .error then ⟨state, some item, writes, .failed (tclErrorStatus state) none⟩
  else if code = .break_ then setAnswer inst item writes state
  else setAnswer inst item writes { state with vars := (state.vars.setVar inst.varName varBind.value).getD state.vars }

def createdVarName (oid : Oid) : String := instanceVarName ((tnmMibGetName env.mib oid).getD "")

def readCreate (oid : Oid) : Bool :=
  match tnmMibFindNode env.mib oid with
  | some (_, node) => node.access = .readCreate
  | none => false

def setMissing (varBind : VarBind) (state : AgentState σ) : SetTurn σ :=
  if readCreate env varBind.soid then
    let (state, _) := tnmSnmpCreateNode env varBind.soid (createdVarName env varBind.soid) (some "") state
    match findInstance state.instTree varBind.soid with
    | none => ⟨state, none, [], .failed noCreation none⟩
    | some inst => setCreated env inst varBind state
  else ⟨state, none, [], .failed noCreation none⟩

def typeMatches (inst : Node) (varBind : VarBind) : Bool :=
  (tnmGetTableKey tnmSnmpTypeTable varBind.asn1Type).map UInt8.toNat == some inst.asn1Syntax

def setExisting (inst : Node) (varBind : VarBind) (state : AgentState σ) : SetTurn σ :=
  if inst.access = .readOnly then ⟨state, none, [], .failed notWritable none⟩
  else if !typeMatches inst varBind then ⟨state, none, [], .failed wrongType none⟩
  else
    let (state, oldValue) := getVar inst.varName state
    let item : SetItem := ⟨varBind, oldValue, false⟩
    let (state, code) := tnmSnmpEvalNodeBinding env .set inst varBind.value oldValue state
    if code = .error then ⟨state, some item, [], .failed (tclErrorStatus state) none⟩
    else if code = .break_ then setAnswer inst item [] state
    else
      match state.vars.setVar inst.varName varBind.value with
      | none => ⟨state, some item, [], .failed (tclErrorStatus state) none⟩
      | some vars => setAnswer inst item [⟨inst, varBind⟩] { state with vars }

def setVarBind (varBind : VarBind) (state : AgentState σ) : SetTurn σ :=
  match findInstance state.instTree varBind.soid with
  | none => setMissing env varBind state
  | some inst => setExisting env inst varBind state

/-- The first loop so far; the items to roll back are kept latest first. -/
structure SetLoop (σ : Type) where
  state : AgentState σ
  done : List SetItem
  writes : List Write
  response : Response

def setVarBinds : List VarBind → SetLoop σ → SetLoop σ
  | [], loop => loop
  | varBind :: rest, loop =>
    let turn := setVarBind env varBind loop.state
    let after : SetLoop σ :=
      { loop with state := turn.state, done := turn.item.toList ++ loop.done, writes := loop.writes ++ turn.writes }
    match turn.answer with
    | .bound bound =>
      setVarBinds rest { after with response.varBinds := loop.response.varBinds ++ [bound] }
    | .failed errorStatus unclosed =>
      { after with response :=
          { loop.response with errorStatus, errorIndex := loop.response.varBinds.length + 1, unclosed } }

/-- The check bindings; any code but `TCL_OK` fails the request, as does an instance that is gone. -/
def checkItems : List SetItem → Nat → AgentState σ → AgentState σ × Option (Int × Int)
  | [], _, state => (state, none)
  | item :: rest, index, state =>
    match findInstance state.instTree item.varBind.soid with
    | none => ({ state with result := "" }, some (genErr, index + 1))
    | some inst =>
      match tnmSnmpEvalNodeBinding env .check inst item.varBind.value item.oldValue state with
      | (state, .ok) => checkItems rest (index + 1) state
      | (state, _) => (state, some (tclErrorStatus state, index + 1))

def commitItems : List SetItem → AgentState σ → AgentState σ
  | [], state => state
  | item :: rest, state =>
    match findInstance state.instTree item.varBind.soid with
    | none => commitItems rest state
    | some inst =>
      commitItems rest (tnmSnmpEvalNodeBinding env .commit inst item.varBind.value item.oldValue state).1

def rollbackItem (state : AgentState σ) (item : SetItem) : AgentState σ :=
  match findInstance state.instTree item.varBind.soid with
  | none => state
  | some inst =>
    let (state, _) := tnmSnmpEvalNodeBinding env .rollback inst item.varBind.value item.oldValue state
    if item.created then unsetVar inst.varName state
    else
      match item.oldValue with
      | some old => { state with vars := (state.vars.setVar inst.varName old).getD state.vars }
      | none => state

def allItems (varBinds : List VarBind) (done : List SetItem) : List SetItem :=
  done.reverse ++ (varBinds.drop done.length).map fun varBind => ⟨varBind, none, false⟩

structure SetOutcome (σ : Type) where
  state : AgentState σ
  response : Response
  writes : List Write

def checkResponse (varBinds : List VarBind) (loop : SetLoop σ) : AgentState σ × Response :=
  let response := loop.response.fits env
  if response.errorStatus = noError then
    match checkItems env (allItems varBinds loop.done) 0 loop.state with
    | (state, none) => (state, response)
    | (state, some (errorStatus, errorIndex)) => (state, { response with errorStatus, errorIndex })
  else (loop.state, response)

def setRequest (varBinds : List VarBind) (state : AgentState σ) : SetOutcome σ :=
  let loop := setVarBinds env varBinds ⟨state, [], [], emptyResponse⟩
  let (state, response) := checkResponse env varBinds loop
  if response.errorStatus = noError then
    ⟨commitItems env (allItems varBinds loop.done) state, response, loop.writes⟩
  else ⟨loop.done.foldl (rollbackItem env) state, response, loop.writes⟩

end

end Tnm
