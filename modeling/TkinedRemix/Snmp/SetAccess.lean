import TkinedRemix.Snmp.AgentReply

/-!
Access and types in `SetRequest`. The type of a varbind is not compared with an instance that it creates.
-/

namespace Tnm

open Lib

section

variable {σ : Type} (env : AgentEnv σ)

def setTurns : List VarBind → AgentState σ → List (AgentState σ × VarBind)
  | [], _ => []
  | varBind :: rest, state =>
    (state, varBind) ::
      match (setVarBind env varBind state).answer with
      | .bound _ => setTurns rest (setVarBind env varBind state).state
      | .failed _ _ => []

/-- The set bindings leave the variable to the agent, and it takes the new value. -/
def takesValue (inst : Node) (varBind : VarBind) (state : AgentState σ) : Bool :=
  let (state, oldValue) := getVar inst.varName state
  let (state, code) := tnmSnmpEvalNodeBinding env .set inst varBind.value oldValue state
  code ≠ .error && code ≠ .break_ && (state.vars.setVar inst.varName varBind.value).isSome

def createdInstance (varBind : VarBind) (state : AgentState σ) : Option Node :=
  if readCreate env varBind.soid then
    findInstance (tnmSnmpCreateNode env varBind.soid (createdVarName env varBind.soid) (some "") state).1.instTree
      varBind.soid
  else none

/-- Write access, and a varbind of the syntax of the instance. -/
def Permitted (write : Write) : Prop :=
  (write.inst.access = .readWrite ∨ write.inst.access = .readCreate) ∧ typeMatches write.inst write.varBind = true

instance (write : Write) : Decidable (Permitted write) := inferInstanceAs (Decidable (_ ∧ _))

/-- Only accessible instances are written, and a created one gets a varbind of its syntax. -/
def Guarded (state : AgentState σ) (varBind : VarBind) : Prop :=
  match findInstance state.instTree varBind.soid with
  | some inst =>
    inst.access = .noAccess ∨ inst.access = .forNotify → typeMatches inst varBind = true →
      takesValue env inst varBind state = false
  | none => ∀ inst, createdInstance env varBind state = some inst → typeMatches inst varBind = true

end

variable {σ : Type} {env : AgentEnv σ}

theorem setAnswer_writes (inst : Node) (item : SetItem) (writes : List Write) (state : AgentState σ) :
    (setAnswer inst item writes state).writes = writes := by
  unfold setAnswer
  split <;> rfl

theorem setExisting_writes (inst : Node) (varBind : VarBind) (state : AgentState σ) :
    (setExisting env inst varBind state).writes =
      if inst.access ≠ .readOnly ∧ typeMatches inst varBind = true ∧ takesValue env inst varBind state = true then
        [⟨inst, varBind⟩] else [] := by
  unfold setExisting takesValue
  by_cases readOnly : inst.access = .readOnly
  · simp [readOnly]
  · by_cases matched : typeMatches inst varBind = true
    · simp only [matched, ne_eq, readOnly]
      generalize tnmSnmpEvalNodeBinding env .set inst varBind.value _ _ = evaluated
      by_cases failed : evaluated.2 = .error
      · simp [failed]
      · by_cases broken : evaluated.2 = .break_
        · simp [broken, setAnswer_writes]
        · cases taken : evaluated.1.vars.setVar inst.varName varBind.value <;>
            simp [failed, broken, setAnswer_writes]
    · simp [readOnly, matched]

theorem setCreated_writes (inst : Node) (varBind : VarBind) (state : AgentState σ) :
    (setCreated env inst varBind state).writes = [⟨inst, varBind⟩] := by
  unfold setCreated
  dsimp only
  split_ifs
  · rfl
  · exact setAnswer_writes _ _ _ _
  · exact setAnswer_writes _ _ _ _

theorem setMissing_writes (varBind : VarBind) (state : AgentState σ) : (setMissing env varBind state).writes =
      (createdInstance env varBind state).toList.map fun inst => ⟨inst, varBind⟩ := by
  unfold setMissing createdInstance
  split_ifs with allowed
  · dsimp only
    split
    next missing => rw [missing]; rfl
    next inst found => rw [found, setCreated_writes]; rfl
  · rfl

theorem tnmSnmpCreateNode_cases (env : AgentEnv σ) (label : Oid) (tclVarName text : String) (state : AgentState σ) :
    (tnmSnmpCreateNode env label tclVarName (some text) state).1 = state ∨
      ∃ node offset vars, creatable env label = some (node, offset) ∧ state.vars.setVar tclVarName text = some vars ∧
        (tnmSnmpCreateNode env label tclVarName (some text) state).1 =
          bindNode label node offset tclVarName vars state := by
  unfold tnmSnmpCreateNode
  split
  · exact .inl rfl
  next node offset allowed =>
    dsimp only
    split
    · exact .inl rfl
    next vars written => exact .inr ⟨node, offset, vars, allowed, written, rfl⟩

theorem creatable_node {label : Oid} {node : MibNode} {offset : Nat}
    (allowed : creatable env label = some (node, offset)) :
    ∃ base, tnmMibFindNode env.mib label = some (base, node) := by
  unfold creatable at allowed
  split at allowed
  · cases allowed
  next base found known =>
    split_ifs at allowed
    split at allowed
    · cases allowed
    · split_ifs at allowed
      cases allowed
      exact ⟨base, known⟩

theorem findNode_addNode {tree : InstTree} {soid : Oid} {offset asn1Syntax : Nat} {access : Access}
    {tclVarName : Option String} {node : Node} (reachable : ReachableTree tree)
    (found : findNode (addNode tree soid offset asn1Syntax access tclVarName).1 soid = some node) :
    ∃ bindings, node = ⟨soid, offset, asn1Syntax, access, tclVarName, bindings⟩ := by
  obtain ⟨rest, rfl⟩ := findNode_own found
  by_cases top : rest = []
  · subst top
    unfold findNode at found
    split at found
    next shape =>
      cases shape
      cases found
    · cases found
  · obtain ⟨bindings, placed⟩ := findNode_addNode_self tree reachable rest offset asn1Syntax access tclVarName top
    exact ⟨bindings, Option.some.inj (found.symm.trans placed)⟩

theorem createdInstance_inv {varBind : VarBind} {state : AgentState σ} {inst : Node}
    (missing : findInstance state.instTree varBind.soid = none)
    (created : createdInstance env varBind state = some inst) :
    ∃ node offset vars bindings, creatable env varBind.soid = some (node, offset) ∧ node.access = .readCreate ∧
      state.vars.setVar (createdVarName env varBind.soid) "" = some vars ∧
      (tnmSnmpCreateNode env varBind.soid (createdVarName env varBind.soid) (some "") state).1 =
        bindNode varBind.soid node offset (createdVarName env varBind.soid) vars state ∧
      inst = ⟨varBind.soid, offset, node.baseSyntax, node.access, some (createdVarName env varBind.soid),
        bindings⟩ := by
  unfold createdInstance at created
  split_ifs at created with allowed
  rcases tnmSnmpCreateNode_cases env varBind.soid (createdVarName env varBind.soid) "" state with
    same | ⟨node, offset, vars, creates, written, after⟩
  · rw [same, missing] at created
    cases created
  · rw [after] at created
    obtain ⟨bindings, shape⟩ := findNode_addNode state.reachable (Option.filter_eq_some_iff.mp created).1
    obtain ⟨_, known⟩ := creatable_node creates
    have access : node.access = .readCreate := by simpa [readCreate, known] using allowed
    exact ⟨node, offset, vars, bindings, creates, access, written, after, shape⟩

theorem setVarBind_permitted_iff (state : AgentState σ) (varBind : VarBind) :
    (∀ write ∈ (setVarBind env varBind state).writes, Permitted write) ↔ Guarded env state varBind := by
  unfold setVarBind Guarded
  cases found : findInstance state.instTree varBind.soid with
  | none =>
    rw [setMissing_writes]
    cases created : createdInstance env varBind state with
    | none => simp
    | some inst =>
      obtain ⟨_, _, _, _, _, access, _, _, shape⟩ := createdInstance_inv found created
      have writable : inst.access = .readCreate := by rw [shape]; exact access
      simp [Permitted, writable]
  | some inst =>
    rw [setExisting_writes]
    cases access : inst.access <;> by_cases matched : typeMatches inst varBind = true <;>
      by_cases taken : takesValue env inst varBind state = true <;> simp [Permitted, access, taken]

theorem setVarBinds_writes (varBinds : List VarBind) (loop : SetLoop σ) : (setVarBinds env varBinds loop).writes =
      loop.writes ++ (setTurns env varBinds loop.state).flatMap fun turn => (setVarBind env turn.2 turn.1).writes := by
  induction varBinds generalizing loop with
  | nil => simp [setVarBinds, setTurns]
  | cons varBind _ ih =>
    rw [setVarBinds, setTurns]
    cases answer : (setVarBind env varBind loop.state).answer with
    | bound =>
      rw [ih]
      simp
    | failed => simp

/-- The writes of a SET request are permitted exactly if every varbind is guarded at its turn. -/
theorem setRequest_permitted_iff (env : AgentEnv σ) (varBinds : List VarBind) (state : AgentState σ) :
    (setRequest env varBinds state).response.errorStatus = noError →
      ((∀ write ∈ (setRequest env varBinds state).writes, Permitted write) ↔
        ∀ turn ∈ setTurns env varBinds state, Guarded env turn.1 turn.2) := by
  intro _
  have writes : (setRequest env varBinds state).writes =
      (setTurns env varBinds state).flatMap fun turn => (setVarBind env turn.2 turn.1).writes := by
    unfold setRequest
    dsimp only
    split_ifs <;> simp [setVarBinds_writes]
  rw [writes, List.forall_mem_flatMap]
  simp only [setVarBind_permitted_iff]

def notifyAgent : AgentState Unit where
  instTree := (addNode .nil [1, 3, 1, 0] 6 2 .forNotify (some "x")).1
  reachable := .add _ _ _ _ _ .empty
  vars := oneInstance.vars
  result := ""
  outside := ()

def columnMib : Mib := fun oid =>
  if oid = [1, 3, 2] then some ⟨"column", .readCreate, 2, false, some asn1SequenceSyntax⟩
  else if oid = [1, 3] ∨ oid = [1] then some ⟨"entry", .noAccess, asn1SequenceSyntax, true, none⟩
  else none

def columnEnv : AgentEnv Unit := { plainEnv with mib := columnMib }

theorem setRequest_permitted_iff_oneInstance :
    (setRequest columnEnv [⟨[1, 3, 1, 0], "Integer32", "5"⟩] oneInstance).response.errorStatus = noError ∧
      ∀ write ∈ (setRequest columnEnv [⟨[1, 3, 1, 0], "Integer32", "5"⟩] oneInstance).writes, Permitted write := by
  have fine : (setRequest columnEnv [⟨[1, 3, 1, 0], "Integer32", "5"⟩] oneInstance).response.errorStatus = noError := by
    decide
  refine ⟨fine, (setRequest_permitted_iff columnEnv _ oneInstance fine).mpr ?_⟩
  intro turn member
  obtain rfl : turn = (oneInstance, ⟨[1, 3, 1, 0], "Integer32", "5"⟩) := List.mem_singleton.mp member
  rintro (none | notify)
  · cases none
  · cases notify

/-- A notification instance is set, and a string is written into an integer column. -/
theorem unguarded_written :
    let notified := setRequest columnEnv [⟨[1, 3, 1, 0], "Integer32", "5"⟩] notifyAgent
    let created := setRequest columnEnv [⟨[1, 3, 2, 1], "OCTET STRING", "five"⟩] oneInstance
    (notified.response.errorStatus = noError ∧ notified.state.vars.value "x" = some "5" ∧
      ∃ write ∈ notified.writes, ¬ Permitted write) ∧
    (created.response.errorStatus = noError ∧ created.state.vars.value "column(1)" = some "five" ∧
      ∃ write ∈ created.writes, ¬ Permitted write) := by
  decide

end Tnm
