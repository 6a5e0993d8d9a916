import TkinedRemix.Lib.Undo
import TkinedRemix.Snmp.SetAccess

/-!
The rollback of `SetRequest`. If every instance that is created gets a variable of its own, the instances and
their variables are restored exactly when every instance that is set had a value before.
-/

namespace Tnm

open Lib List Option Function

variable {σ : Type} {env : AgentEnv σ}

/-- Only a scalar or an element of an array has a value. -/
def Consistent (vars : TclVars) : Prop :=
  ∀ target, (vars.value target).isSome → (arrayOf target = none → vars.isArray target = false) ∧
    ∀ base, arrayOf target = some base → vars.isArray base = true

variable {name : String}

theorem arrayOf_base {base : String} (element : arrayOf name = some base) : arrayOf base = none := by
  unfold arrayOf at element
  split_ifs at element with shape
  cases element
  rw [arrayOf, if_neg]
  rintro ⟨opened, _⟩
  rw [String.toList_ofList] at opened
  simpa using mem_takeWhile_imp opened

section

variable {vars written : TclVars} {name text : String}

structure Stored (vars : TclVars) (name text : String) (written : TclVars) : Prop where
  value : written.value = update vars.value (vars.variableOf name) (some text)
  traces : written.traces = vars.traces
  variableOf : written.variableOf = vars.variableOf

theorem setVar_stored (done : vars.setVar name text = some written) : Stored vars name text written := by
  unfold TclVars.setVar at done
  dsimp only at done
  split at done
  all_goals
    split_ifs at done
    cases done
    exact ⟨rfl, rfl, rfl⟩

/-- Only the value of `target` may differ. -/
structure SameElsewhere (target : String) (vars written : TclVars) : Prop where
  value : ∀ other, other ≠ target → written.value other = vars.value other
  traces : written.traces = vars.traces
  variableOf : written.variableOf = vars.variableOf

theorem SameElsewhere.refl (target : String) (vars : TclVars) : SameElsewhere target vars vars :=
  ⟨fun _ _ => rfl, rfl, rfl⟩

theorem Stored.elsewhere (stored : Stored vars name text written) :
    SameElsewhere (vars.variableOf name) vars written := by
  refine ⟨fun other differs => ?_, stored.traces, stored.variableOf⟩
  rw [stored.value, update_of_ne differs]

theorem rewrite_elsewhere (vars : TclVars) (name text : String) :
    SameElsewhere (vars.variableOf name) vars ((vars.setVar name text).getD vars) := by
  cases stored : vars.setVar name text with
  | none => exact .refl _ vars
  | some => exact (setVar_stored stored).elsewhere

theorem setVar_consistent (consistent : Consistent vars) (done : vars.setVar name text = some written) :
    Consistent written := by
  intro other isSet
  unfold TclVars.setVar at done
  dsimp only at done
  generalize vars.variableOf name = target at done
  split at done
  next base element =>
    split_ifs at done with scalar
    cases done
    dsimp only at isSet ⊢
    by_cases same : other = target
    · subst same
      refine ⟨fun plain => by simp [plain] at element, fun array member => ?_⟩
      cases element.symm.trans member
      simp
    · rw [update_of_ne same] at isSet
      obtain ⟨plain, member⟩ := consistent other isSet
      refine ⟨fun notElement => ?_, fun array isElement => ?_⟩
      · have apart : other ≠ base := by
          rintro rfl
          exact scalar isSet
        rw [update_of_ne apart]
        exact plain notElement
      · by_cases sameBase : array = base
        · simp [sameBase]
        · rw [update_of_ne sameBase]
          exact member array isElement
  next plain =>
    split_ifs at done with array
    cases done
    dsimp only at isSet ⊢
    by_cases same : other = target
    · subst same
      exact ⟨fun _ => by simpa using array, fun base member => by simp [plain] at member⟩
    · rw [update_of_ne same] at isSet
      exact consistent other isSet

theorem setVar_defined (text : String) (consistent : Consistent vars) (isSet : (vars.read name).isSome) :
    ∃ written, vars.setVar name text = some written := by
  obtain ⟨plain, member⟩ := consistent (vars.variableOf name) isSet
  unfold TclVars.setVar
  dsimp only
  split
  next base element =>
    have notScalar : ¬ (vars.value base).isSome := by
      intro scalar
      have none := (consistent base scalar).1 (arrayOf_base element)
      cases (member base element).symm.trans none
    rw [if_neg notScalar]
    exact ⟨_, rfl⟩
  next notElement =>
    rw [plain notElement]
    exact ⟨_, rfl⟩

theorem rewrite_own (text : String) (consistent : Consistent vars) (isSet : (vars.read name).isSome) :
    ((vars.setVar name text).getD vars).value (vars.variableOf name) = some text := by
  obtain ⟨_, stored⟩ := setVar_defined text consistent isSet
  rw [stored, getD_some, (setVar_stored stored).value, update_self]

theorem rewrite_consistent (consistent : Consistent vars) (name text : String) :
    Consistent ((vars.setVar name text).getD vars) := by
  cases stored : vars.setVar name text with
  | none => exact consistent
  | some => exact setVar_consistent consistent stored

theorem unset_consistent (consistent : Consistent vars) : Consistent (vars.unset name) := by
  intro other isSet
  by_cases same : other = vars.variableOf name
  · simp [TclVars.unset, same] at isSet
  · simp only [TclVars.unset, update_of_ne same] at isSet ⊢
    exact consistent other isSet

theorem traceVar_consistent (consistent : Consistent vars) : Consistent (vars.traceVar name) := consistent

end

def SameData (state after : AgentState σ) : Prop := after.instTree = state.instTree ∧ after.vars = state.vars

def SideEffectFree (env : AgentEnv σ) : Prop := ∀ callback state, SameData state (env.eval callback state).1

theorem SameData.refl (state : AgentState σ) : SameData state state := ⟨rfl, rfl⟩

theorem SameData.trans {first second third : AgentState σ} (left : SameData first second)
    (right : SameData second third) :
    SameData first third :=
  ⟨right.1.trans left.1, right.2.trans left.2⟩

theorem getVar_same (name : String) (state : AgentState σ) :
    SameData state (getVar name state).1 ∧ (getVar name state).2 = state.vars.read name := by
  unfold getVar
  split
  next text isSet => exact ⟨.refl state, isSet.symm⟩
  next unset => exact ⟨⟨rfl, rfl⟩, unset.symm⟩

theorem evalUpwards_same (pure : SideEffectFree env) (event : SnmpEvent) (oid : Oid) (instOid value : String)
    (oldValue : Option String) (len : Nat) (code : TclCode) (state : AgentState σ) :
    SameData state (evalUpwards env event oid instOid value oldValue len code state).1 := by
  induction len generalizing code state with
  | zero => exact .refl state
  | succ _ ih =>
    rw [evalUpwards]
    split
    · exact ih code state
    next node _ =>
      split
      · exact ih code state
      next command _ =>
        dsimp only
        have same := pure ⟨command, node.label, instOid, value, oldValue⟩ state
        split_ifs <;> first | exact same | exact same.trans (ih _ _)

theorem evalNodeBinding_same (pure : SideEffectFree env) (event : SnmpEvent) (inst : Node) (value : String)
    (oldValue : Option String) (state : AgentState σ) :
    SameData state (tnmSnmpEvalNodeBinding env event inst value oldValue state).1 :=
  evalUpwards_same pure event _ _ value oldValue _ _ state

theorem checkItems_same (pure : SideEffectFree env) (items : List SetItem) (index : Nat) (state : AgentState σ) :
    SameData state (checkItems env items index state).1 := by
  induction items generalizing index state with
  | nil => exact .refl state
  | cons item _ ih =>
    rw [checkItems]
    split
    · exact ⟨rfl, rfl⟩
    next inst _ =>
      have same := evalNodeBinding_same pure .check inst item.varBind.value item.oldValue state
      split
      next after evaluated =>
        rw [evaluated] at same
        exact same.trans (ih _ _)
      next after _ _ evaluated =>
        rw [evaluated] at same
        exact same

def Bound (tree : InstTree) (oid : Oid) (name : String) : Prop :=
  ∃ node, findNode tree oid = some node ∧ node.tclVarName = some name

/-- The instance is writable, the type fits, and the set bindings leave the variable to the agent. -/
def Written (env : AgentEnv σ) (inst : Node) (varBind : VarBind) (state : AgentState σ) : Prop :=
  inst.access ≠ .readOnly ∧ typeMatches inst varBind = true ∧ takesValue env inst varBind state = true

instance (env : AgentEnv σ) (inst : Node) (varBind : VarBind) (state : AgentState σ) :
    Decidable (Written env inst varBind state) := inferInstanceAs (Decidable (_ ∧ _))

def AgentState.cell (state : AgentState σ) (inst : Node) : String := state.vars.variableOf inst.varName

/-- An instance that is written had a value. -/
def WriteSafe (env : AgentEnv σ) (state : AgentState σ) (varBind : VarBind) : Prop :=
  ∀ inst, findInstance state.instTree varBind.soid = some inst → Written env inst varBind state →
    (state.vars.value (state.cell inst)).isSome

/-- No instance has the variable of one that is created, no node bears its name, and no instance lies below it. -/
def CreationSafe (env : AgentEnv σ) (state : AgentState σ) (varBind : VarBind) : Prop :=
  findInstance state.instTree varBind.soid = none → readCreate env varBind.soid = true →
    (creatable env varBind.soid).isSome → (state.vars.setVar (createdVarName env varBind.soid) "").isSome →
    (∀ oid inst, findInstance state.instTree oid = some inst →
      state.cell inst ≠ state.vars.variableOf (createdVarName env varBind.soid)) ∧
    (∀ oid, ¬ Bound state.instTree oid (createdVarName env varBind.soid)) ∧
    ((createdInstance env varBind state).isSome →
      ∀ oid inst, findInstance state.instTree oid = some inst → ¬ varBind.soid <+: oid)

/-- The variable of a new instance is set to the empty text, and then to the new value unless a binding objects. -/
structure Creates (env : AgentEnv σ) (varBind : VarBind) (state after : AgentState σ) (node : MibNode) (offset : Nat)
    (vars : TclVars) : Prop where
  allowed : readCreate env varBind.soid = true
  missing : findInstance state.instTree varBind.soid = none
  creates : creatable env varBind.soid = some (node, offset)
  stored : state.vars.setVar (createdVarName env varBind.soid) "" = some vars
  tree : after.instTree = (bindNode varBind.soid node offset (createdVarName env varBind.soid) vars state).instTree
  assigned : after.vars = vars.traceVar (createdVarName env varBind.soid) ∨
    (vars.traceVar (createdVarName env varBind.soid)).setVar (createdVarName env varBind.soid) varBind.value =
      some after.vars

inductive TurnDone (env : AgentEnv σ) (varBind : VarBind) (state : AgentState σ) (turn : SetTurn σ) : Prop
  | refused (item : turn.item = none) (same : SameData state turn.state)
      (unwritten : ∀ inst, findInstance state.instTree varBind.soid = some inst → ¬ Written env inst varBind state)
  | written (inst : Node) (found : findInstance state.instTree varBind.soid = some inst)
      (item : turn.item = some ⟨varBind, state.vars.value (state.cell inst), false⟩)
      (tree : turn.state.instTree = state.instTree)
      (vars : if Written env inst varBind state then
          state.vars.setVar inst.varName varBind.value = some turn.state.vars
        else turn.state.vars = state.vars)
  | unfit (node : MibNode) (offset : Nat) (vars : TclVars)
      (creates : Creates env varBind state turn.state node offset vars)
      (item : turn.item = none) (unfound : findInstance turn.state.instTree varBind.soid = none)
  | created (node : MibNode) (offset : Nat) (vars : TclVars) (inst : Node)
      (creates : Creates env varBind state turn.state node offset vars)
      (item : turn.item = some ⟨varBind, none, true⟩)
      (found : findInstance turn.state.instTree varBind.soid = some inst)
      (named : inst.tclVarName = some (createdVarName env varBind.soid))
      (isInstance : createdInstance env varBind state = some inst)

theorem setAnswer_same (inst : Node) (item : SetItem) (writes : List Write) (state : AgentState σ) :
    SameData state (setAnswer inst item writes state).state ∧ (setAnswer inst item writes state).item = some item := by
  have same := (getVar_same inst.varName state).1
  unfold setAnswer
  split
  next after unset =>
    rw [unset] at same
    exact ⟨same, rfl⟩
  next after text isSet =>
    rw [isSet] at same
    exact ⟨same, rfl⟩

variable {inst : Node} {varBind : VarBind} {state : AgentState σ}

theorem setExisting_done (pure : SideEffectFree env) (found : findInstance state.instTree varBind.soid = some inst) :
    TurnDone env varBind state (setExisting env inst varBind state) := by
  unfold setExisting
  split_ifs with readOnly mismatch
  · refine .refused rfl (.refl state) fun _ member written => ?_
    cases found.symm.trans member
    exact written.1 readOnly
  · refine .refused rfl (.refl state) fun _ member written => ?_
    cases found.symm.trans member
    simp [written.2.1] at mismatch
  · obtain ⟨sameRead, old⟩ := getVar_same inst.varName state
    have same := sameRead.trans (evalNodeBinding_same pure .set inst varBind.value (getVar inst.varName state).2
      (getVar inst.varName state).1)
    have taken : Written env inst varBind state ↔ takesValue env inst varBind state = true :=
      ⟨fun written => written.2.2, fun takes => ⟨readOnly, by simpa using mismatch, takes⟩⟩
    unfold takesValue at taken
    dsimp only at taken ⊢
    generalize tnmSnmpEvalNodeBinding env .set inst varBind.value _ _ = evaluated at same taken ⊢
    rw [old]
    split_ifs with failed broken
    · refine .written inst found rfl same.1 ?_
      rw [if_neg (by simp [taken, failed])]
      exact same.2
    · obtain ⟨answered, item⟩ := setAnswer_same inst ⟨varBind, state.vars.read inst.varName, false⟩ [] evaluated.1
      refine .written inst found item (answered.1.trans same.1) ?_
      rw [if_neg (by simp [taken, broken])]
      exact answered.2.trans same.2
    · split
      next unstored =>
        refine .written inst found rfl same.1 ?_
        rw [if_neg (by simp [taken, unstored])]
        exact same.2
      next vars stored =>
        obtain ⟨answered, item⟩ := setAnswer_same inst ⟨varBind, state.vars.read inst.varName, false⟩
          [⟨inst, varBind⟩] { evaluated.1 with vars }
        refine .written inst found item (answered.1.trans same.1) ?_
        rw [if_pos (by simp [taken, failed, broken, stored]), answered.2, ← same.2]
        exact stored

theorem setCreated_done (pure : SideEffectFree env) (inst : Node) (varBind : VarBind) (state : AgentState σ) :
    (setCreated env inst varBind state).item = some ⟨varBind, none, true⟩ ∧
      (setCreated env inst varBind state).state.instTree = state.instTree ∧
      ((setCreated env inst varBind state).state.vars = state.vars ∨
        state.vars.setVar inst.varName varBind.value = some (setCreated env inst varBind state).state.vars) := by
  have same := evalNodeBinding_same pure .create inst varBind.value none state
  unfold setCreated
  dsimp only
  generalize tnmSnmpEvalNodeBinding env .create inst varBind.value none state = evaluated at same ⊢
  split_ifs with failed broken
  · exact ⟨rfl, same.1, .inl same.2⟩
  · obtain ⟨answered, item⟩ := setAnswer_same inst ⟨varBind, none, true⟩ [⟨inst, varBind⟩] evaluated.1
    exact ⟨item, answered.1.trans same.1, .inl (answered.2.trans same.2)⟩
  · obtain ⟨answered, item⟩ := setAnswer_same inst ⟨varBind, none, true⟩ [⟨inst, varBind⟩]
      { evaluated.1 with vars := (evaluated.1.vars.setVar inst.varName varBind.value).getD evaluated.1.vars }
    refine ⟨item, answered.1.trans same.1, ?_⟩
    rw [answered.2]
    cases stored : evaluated.1.vars.setVar inst.varName varBind.value with
    | none => exact .inl same.2
    | some =>
      rw [same.2] at stored
      exact .inr stored

theorem setMissing_done (pure : SideEffectFree env) (missing : findInstance state.instTree varBind.soid = none) :
    TurnDone env varBind state (setMissing env varBind state) := by
  have unwritten : ∀ inst, findInstance state.instTree varBind.soid = some inst → ¬ Written env inst varBind state := by
    intro _ found
    cases missing.symm.trans found
  unfold setMissing
  split_ifs with allowed
  · dsimp only
    have isInstance : createdInstance env varBind state = findInstance (tnmSnmpCreateNode env varBind.soid
        (createdVarName env varBind.soid) (some "") state).1.instTree varBind.soid := if_pos allowed
    rcases tnmSnmpCreateNode_cases env varBind.soid (createdVarName env varBind.soid) "" state with
      same | ⟨node, offset, vars, creates, stored, after⟩
    · rw [same, missing]
      exact .refused rfl (.refl state) unwritten
    · rw [after] at isInstance ⊢
      split
      next unfound => exact .unfit node offset vars ⟨allowed, missing, creates, stored, rfl, .inl rfl⟩ rfl unfound
      next inst found =>
        obtain ⟨_, shape⟩ := findNode_addNode state.reachable (filter_eq_some_iff.mp found).1
        obtain ⟨item, tree, assigned⟩ := setCreated_done pure inst varBind
          (bindNode varBind.soid node offset (createdVarName env varBind.soid) vars state)
        have varName : inst.varName = createdVarName env varBind.soid := by rw [shape]; rfl
        rw [varName] at assigned
        exact .created node offset vars inst ⟨allowed, missing, creates, stored, tree, assigned⟩ item
          (by rw [tree]; exact found) (by rw [shape]) (isInstance.trans found)
  · exact .refused rfl (.refl state) unwritten

theorem setVarBind_done (pure : SideEffectFree env) (varBind : VarBind) (state : AgentState σ) :
    TurnDone env varBind state (setVarBind env varBind state) := by
  unfold setVarBind
  split
  next missing => exact setMissing_done pure missing
  next inst found => exact setExisting_done pure found

/-- The same instances with the same bindings and traces, and with the same values if these are tracked. -/
structure Alike (tracked : Prop) (state other : AgentState σ) : Prop where
  instances : ∀ oid, findInstance other.instTree oid = findInstance state.instTree oid
  bound : ∀ place inst name, findInstance state.instTree place = some inst → inst.tclVarName = some name →
    ∀ oid, Bound other.instTree oid name → Bound state.instTree oid name
  values : ∀ oid inst, findInstance state.instTree oid = some inst → tracked →
    other.vars.value (state.cell inst) = state.vars.value (state.cell inst)
  traced : ∀ oid inst, findInstance state.instTree oid = some inst → 0 < state.vars.traces (state.cell inst) →
    0 < other.vars.traces (state.cell inst)
  names : other.vars.variableOf = state.vars.variableOf
  consistent : Consistent other.vars

variable {tracked : Prop}

theorem Alike.refl (consistent : Consistent state.vars) : Alike tracked state state :=
  ⟨fun _ => rfl, fun _ _ _ _ _ _ same => same, fun _ _ _ _ => rfl, fun _ _ _ traced => traced, rfl, consistent⟩

variable {after other : AgentState σ}

theorem SameData.cell (same : SameData state after) (inst : Node) : after.cell inst = state.cell inst := by
  rw [AgentState.cell, AgentState.cell, same.2]

theorem Alike.cell (alike : Alike tracked state other) (inst : Node) : other.cell inst = state.cell inst := by
  rw [AgentState.cell, AgentState.cell, alike.names]

theorem Alike.of_same (alike : Alike tracked after other) (same : SameData state after) :
    Alike tracked state other := by
  obtain ⟨instances, bound, values, traced, names, consistent⟩ := alike
  simp only [same.cell, same.1, same.2] at instances bound values traced names
  exact ⟨instances, bound, values, traced, names, consistent⟩

theorem Alike.same (alike : Alike tracked state other) (same : SameData other after) : Alike tracked state after := by
  obtain ⟨instances, bound, values, traced, names, consistent⟩ := alike
  rw [← same.1] at instances bound
  rw [← same.2] at values traced names consistent
  exact ⟨instances, bound, values, traced, names, consistent⟩

section

variable {tree : InstTree} {soid : Oid} {offset asn1Syntax : Nat} {access : Access} {name : String}

theorem findInstance_addNode_other (reachable : ReachableTree tree) {oid : Oid} (differs : oid ≠ soid)
    (tclVarName : Option String) :
    findInstance (addNode tree soid offset asn1Syntax access tclVarName).1 oid = findInstance tree oid := by
  rcases findNode_addNode_other tree reachable soid oid offset asn1Syntax access tclVarName differs with
    same | ⟨missing, label, blank⟩
  · rw [findInstance, findInstance, same]
  · rw [findInstance, findInstance, missing, blank]
    rfl

theorem bound_addNode (reachable : ReachableTree tree) {oid : Oid} {other : String}
    (bound : Bound (addNode tree soid offset asn1Syntax access (some name)).1 oid other) :
    (oid = soid ∧ other = name) ∨ Bound tree oid other := by
  obtain ⟨node, found, named⟩ := bound
  by_cases differs : oid = soid
  · subst differs
    obtain ⟨_, rfl⟩ := findNode_addNode reachable found
    exact .inl ⟨rfl, (some.inj named).symm⟩
  · rcases findNode_addNode_other tree reachable soid oid offset asn1Syntax access (some name) differs with
      same | ⟨_, label, blank⟩
    · exact .inr ⟨node, same.symm.trans found, named⟩
    · cases blank.symm.trans found
      cases named

end

theorem rollbackItem_found (pure : SideEffectFree env) (item : SetItem)
    (found : findInstance state.instTree item.varBind.soid = some inst) :
    ∃ after, SameData state after ∧ rollbackItem env state item = if item.created then unsetVar inst.varName after else
        match item.oldValue with
        | some old => { after with vars := (after.vars.setVar inst.varName old).getD after.vars }
        | none => after := by
  refine ⟨_, evalNodeBinding_same pure .rollback inst item.varBind.value item.oldValue state, ?_⟩
  unfold rollbackItem
  split
  next missing => rw [missing] at found; cases found
  next other same =>
    cases same.symm.trans found
    rfl

theorem written_reverts (pure : SideEffectFree env) (found : findInstance state.instTree varBind.soid = some inst)
    (isSet : tracked → Written env inst varBind state → (state.vars.value (state.cell inst)).isSome)
    (tree : after.instTree = state.instTree)
    (vars : if Written env inst varBind state then state.vars.setVar inst.varName varBind.value = some after.vars
      else after.vars = state.vars) :
    Reverts (rollbackItem env) (Alike tracked) state [⟨varBind, state.vars.value (state.cell inst), false⟩] after := by
  intro other alike
  have changed : SameElsewhere (state.cell inst) state.vars after.vars := by
    split at vars
    · exact (setVar_stored vars).elsewhere
    · rw [vars]
      exact .refl _ _
  have cells : ∀ node, after.cell node = state.cell node := fun node => congrFun changed.variableOf node.varName
  obtain ⟨instances, bound, values, traced, names, consistent⟩ := alike
  simp only [tree, cells] at instances bound values traced
  obtain ⟨evaluated, same, undone⟩ := rollbackItem_found pure ⟨varBind, state.vars.value (state.cell inst), false⟩
    ((instances _).trans found)
  have target : evaluated.vars.variableOf inst.varName = state.cell inst := by
    rw [same.2, names, changed.variableOf]
    rfl
  rw [foldl_cons, foldl_nil, undone]
  rw [← same.2] at values traced names consistent
  simp only [← same.1] at instances bound
  have own : tracked → evaluated.vars.value (state.cell inst) = after.vars.value (state.cell inst) :=
    values varBind.soid inst found
  simp only [Bool.false_eq_true, if_false]
  cases oldValue : state.vars.value (state.cell inst) with
  | none =>
    refine ⟨instances, bound, fun oid node member follows => ?_, fun oid node member => ?_,
      names.trans changed.variableOf,
      consistent⟩
    · rw [values oid node member follows]
      by_cases same : state.cell node = state.cell inst
      · rw [same]
        split at vars
        next written =>
          have valued := isSet follows written
          rw [oldValue] at valued
          cases valued
        next => rw [vars]
      · exact changed.value _ same
    · rw [← changed.traces]
      exact traced oid node member
  | some old =>
    have rewritten := rewrite_elsewhere evaluated.vars inst.varName old
    rw [target] at rewritten
    refine ⟨instances, bound, fun oid node member follows => ?_, fun oid node member traces => ?_,
      rewritten.variableOf.trans (names.trans changed.variableOf), rewrite_consistent consistent _ _⟩
    · by_cases same : state.cell node = state.cell inst
      · rw [same]
        have valued : (evaluated.vars.read inst.varName).isSome := by
          rw [TclVars.read, target, own follows]
          split at vars
          · rw [(setVar_stored vars).value]
            simp [AgentState.cell]
          · rw [vars, oldValue]
            rfl
        have restored := rewrite_own old consistent valued
        rw [target] at restored
        rw [oldValue]
        exact restored
      · exact (rewritten.value _ same).trans ((values oid node member follows).trans (changed.value _ same))
    · rw [← changed.traces] at traces
      have kept := traced oid node member traces
      rwa [← rewritten.traces] at kept

/-- A node is added, and of the variables only that of its name changes. -/
structure Extends (soid : Oid) (name : String) (state after : AgentState σ) : Prop where
  missing : findInstance state.instTree soid = none
  apart : ∀ oid inst, findInstance state.instTree oid = some inst → state.cell inst ≠ state.vars.variableOf name
  unbound : ∀ oid, ¬ Bound state.instTree oid name
  instances : ∀ oid, oid ≠ soid → findInstance after.instTree oid = findInstance state.instTree oid
  bound : ∀ oid other, Bound after.instTree oid other → (oid = soid ∧ other = name) ∨ Bound state.instTree oid other
  values : ∀ other, other ≠ state.vars.variableOf name → after.vars.value other = state.vars.value other
  traces : ∀ other, other ≠ state.vars.variableOf name → after.vars.traces other = state.vars.traces other
  names : after.vars.variableOf = state.vars.variableOf

variable {soid : Oid}

theorem Extends.kept {oid : Oid} (extended : Extends soid name state after)
    (found : findInstance state.instTree oid = some inst) : findInstance after.instTree oid = some inst := by
  rw [extended.instances oid, found]
  rintro rfl
  cases extended.missing.symm.trans found

theorem Extends.cell (extended : Extends soid name state after) (inst : Node) : after.cell inst = state.cell inst :=
  congrFun extended.names inst.varName

theorem Extends.alike (extended : Extends soid name state after) (alike : Alike tracked after other)
    {undone : AgentState σ} (instances : ∀ oid, findInstance undone.instTree oid = findInstance state.instTree oid)
    (bound : ∀ oid bindName, Bound undone.instTree oid bindName → Bound other.instTree oid bindName)
    (values : ∀ target, target ≠ state.vars.variableOf name → undone.vars.value target = other.vars.value target)
    (traces : ∀ target, target ≠ state.vars.variableOf name → undone.vars.traces target = other.vars.traces target)
    (names : undone.vars.variableOf = other.vars.variableOf) (consistent : Consistent undone.vars) :
    Alike tracked state undone where
  instances := instances
  bound := by
    intro place inst bindName placed named oid isBound
    rcases extended.bound oid bindName (alike.bound place inst bindName (extended.kept placed) named oid
      (bound oid bindName isBound)) with ⟨_, same⟩ | before
    · exact absurd ⟨inst, (filter_eq_some_iff.mp placed).1, same ▸ named⟩ (extended.unbound place)
    · exact before
  values := by
    intro oid inst found follows
    have differs := extended.apart oid inst found
    have kept := alike.values oid inst (extended.kept found)
    rw [extended.cell] at kept
    rw [values _ differs, kept follows, extended.values _ differs]
  traced := by
    intro oid inst found traced
    have differs := extended.apart oid inst found
    have kept := alike.traced oid inst (extended.kept found)
    rw [extended.cell, extended.traces _ differs] at kept
    rw [traces _ differs]
    exact kept traced
  names := names.trans (alike.names.trans extended.names)
  consistent := consistent

variable {node : MibNode} {offset : Nat} {vars : TclVars}

theorem traceVar_traces {other : String} (differs : other ≠ vars.variableOf name) :
    (vars.traceVar name).traces other = vars.traces other :=
  update_of_ne differs _ _

section

variable (creates : Creates env varBind state after node offset vars)
include creates

theorem Creates.consistent (consistent : Consistent state.vars) : Consistent after.vars := by
  have stamped : Consistent vars := setVar_consistent consistent creates.stored
  rcases creates.assigned with unchanged | written
  · rw [unchanged]
    exact traceVar_consistent stamped
  · exact setVar_consistent (traceVar_consistent stamped) written

theorem Creates.names : after.vars.variableOf = state.vars.variableOf := by
  rcases creates.assigned with unchanged | written
  · rw [unchanged]
    exact (setVar_stored creates.stored).variableOf
  · exact (setVar_stored written).variableOf.trans (setVar_stored creates.stored).variableOf

theorem Creates.traces_eq : after.vars.traces = (vars.traceVar (createdVarName env varBind.soid)).traces := by
  rcases creates.assigned with unchanged | written
  · rw [unchanged]
  · exact (setVar_stored written).traces

theorem Creates.traced : 0 < after.vars.traces (state.vars.variableOf (createdVarName env varBind.soid)) := by
  rw [creates.traces_eq, ← (setVar_stored creates.stored).variableOf]
  simp [TclVars.traceVar]

theorem Creates.elsewhere {other : String}
    (differs : other ≠ state.vars.variableOf (createdVarName env varBind.soid)) :
    after.vars.value other = state.vars.value other ∧ after.vars.traces other = state.vars.traces other := by
  have first := (setVar_stored creates.stored).elsewhere
  have differsStill : other ≠ vars.variableOf (createdVarName env varBind.soid) := by
    rw [first.variableOf]
    exact differs
  refine ⟨?_, ?_⟩
  · rw [← first.value other differs]
    rcases creates.assigned with unchanged | written
    · rw [unchanged]
      rfl
    · exact (setVar_stored written).elsewhere.value other differsStill
  · rw [creates.traces_eq, traceVar_traces differsStill, first.traces]

theorem Creates.extends (apart : ∀ oid inst, findInstance state.instTree oid = some inst →
      state.cell inst ≠ state.vars.variableOf (createdVarName env varBind.soid))
    (unbound : ∀ oid, ¬ Bound state.instTree oid (createdVarName env varBind.soid)) :
    Extends varBind.soid (createdVarName env varBind.soid) state after where
  missing := creates.missing
  apart := apart
  unbound := unbound
  instances := by
    intro oid differs
    rw [creates.tree]
    exact findInstance_addNode_other state.reachable differs _
  bound := by
    intro _ other isBound
    rw [creates.tree] at isBound
    exact bound_addNode state.reachable isBound
  values := fun _ differs => (creates.elsewhere differs).1
  traces := fun _ differs => (creates.elsewhere differs).2
  names := creates.names

end

theorem unfit_reverts (extended : Extends soid name state after) (unfound : findInstance after.instTree soid = none) :
    Reverts (rollbackItem env) (Alike tracked) state [] after := by
  intro _ alike
  refine extended.alike alike (fun oid => ?_) (fun _ _ same => same) (fun _ _ => rfl) (fun _ _ => rfl) rfl
    alike.consistent
  rw [foldl_nil, alike.instances]
  by_cases own : oid = soid
  · rw [own, unfound, extended.missing]
  · exact extended.instances oid own

theorem unsetVar_tree {place : Oid} (only : BoundOnly name place state.instTree)
    (traced : 0 < state.vars.traces (state.vars.variableOf name)) :
    (unsetVar name state).instTree = removeNode name state.instTree := by
  have again : ∀ count, removeTraced name count (removeNode name state.instTree) = removeNode name state.instTree := by
    intro count
    induction count with
    | zero => rfl
    | succ _ ih => rw [removeTraced, removeNode_again state.reachable only, ih]
  obtain ⟨count, counted⟩ := Nat.exists_eq_succ_of_ne_zero traced.ne'
  change removeTraced name (state.vars.traces (state.vars.variableOf name)) state.instTree = _
  rw [counted]
  exact again count

theorem created_reverts (pure : SideEffectFree env) (extended : Extends varBind.soid name state after)
    (lowest : ∀ oid below, findInstance state.instTree oid = some below → ¬ varBind.soid <+: oid)
    (traces : 0 < after.vars.traces (state.vars.variableOf name))
    (found : findInstance after.instTree varBind.soid = some inst) (named : inst.tclVarName = some name) :
    Reverts (rollbackItem env) (Alike tracked) state [⟨varBind, none, true⟩] after := by
  intro other alike
  have varName : inst.varName = name := by rw [Node.varName, named, getD_some]
  have otherFound : findInstance other.instTree varBind.soid = some inst := by rw [alike.instances, found]
  obtain ⟨evaluated, same, undone⟩ := rollbackItem_found pure ⟨varBind, none, true⟩ otherFound
  have evaluatedAlike := alike.same same
  have target : evaluated.vars.variableOf name = state.vars.variableOf name := by
    rw [evaluatedAlike.names, extended.names]
  have traced : 0 < evaluated.vars.traces (evaluated.vars.variableOf name) := by
    have kept := evaluatedAlike.traced _ inst found
    rw [extended.cell, AgentState.cell, varName] at kept
    rw [target]
    exact kept traces
  have only : BoundOnly name varBind.soid evaluated.instTree := by
    intro oid bearer member carried
    have isBound : Bound evaluated.instTree oid name := ⟨bearer, member, by simpa [carries] using carried⟩
    rcases extended.bound oid name (evaluatedAlike.bound _ inst name found named oid isBound) with ⟨place, _⟩ | before
    · exact place
    · exact absurd before (extended.unbound oid)
  have carried : carries name inst = true := by simpa [carries] using named
  have located : findNode evaluated.instTree varBind.soid = some inst := by
    rw [same.1]
    exact (filter_eq_some_iff.mp otherFound).1
  rw [foldl_cons, foldl_nil, undone, if_pos rfl, varName]
  have removed := unsetVar_tree only traced
  refine extended.alike evaluatedAlike (fun oid => ?_) (fun oid bindName isBound => ?_) (fun _ differs => ?_)
    (fun _ differs => ?_) rfl (unset_consistent evaluatedAlike.consistent)
  · rw [removed]
    by_cases below : varBind.soid <+: oid
    · have gone := findNode_removeNode_gone evaluated.reachable only located carried below
      rw [findInstance, gone]
      cases before : findInstance state.instTree oid with
      | none => rfl
      | some bearer => exact absurd below (lowest oid bearer before)
    · have kept := findNode_removeNode_kept evaluated.reachable only below
      rw [findInstance, kept, ← extended.instances oid (fun equal => below (equal ▸ prefix_refl _)),
        ← evaluatedAlike.instances oid, findInstance]
  · obtain ⟨bearer, member, bearerName⟩ := isBound
    rw [removed] at member
    by_cases below : varBind.soid <+: oid
    · cases (findNode_removeNode_gone evaluated.reachable only located carried below).symm.trans member
    · rw [findNode_removeNode_kept evaluated.reachable only below] at member
      exact ⟨bearer, member, bearerName⟩
  · rw [← target] at differs
    exact update_of_ne differs _ _
  · rw [← target] at differs
    exact update_of_ne differs _ _

/-- What `CreationSafe` gives where an instance is created. -/
theorem Creates.safe (creates : Creates env varBind state after node offset vars)
    (safe : CreationSafe env state varBind) : Extends varBind.soid (createdVarName env varBind.soid) state after ∧
      ((createdInstance env varBind state).isSome →
        ∀ oid inst, findInstance state.instTree oid = some inst → ¬ varBind.soid <+: oid) := by
  obtain ⟨apart, unbound, lowest⟩ := safe creates.missing creates.allowed (by rw [creates.creates]; rfl)
    (by rw [creates.stored]; rfl)
  exact ⟨creates.extends apart unbound, lowest⟩

theorem turn_reverts (pure : SideEffectFree env) (creations : CreationSafe env state varBind)
    (writes : tracked → WriteSafe env state varBind) :
    Reverts (rollbackItem env) (Alike tracked) state (setVarBind env varBind state).item.toList
      (setVarBind env varBind state).state := by
  cases setVarBind_done pure varBind state with
  | refused item same =>
    rw [item]
    exact fun other alike => alike.of_same same
  | written inst found item tree vars =>
    rw [item]
    exact written_reverts pure found (fun follows => writes follows inst found) tree vars
  | unfit _ _ _ creates item unfound =>
    rw [item]
    exact unfit_reverts (creates.safe creations).1 unfound
  | created _ _ _ _ creates item found named isInstance =>
    rw [item]
    obtain ⟨extended, lowest⟩ := creates.safe creations
    exact created_reverts pure extended (lowest (by rw [isInstance]; rfl)) creates.traced found named

theorem turn_consistent (pure : SideEffectFree env) (varBind : VarBind) (consistent : Consistent state.vars) :
    Consistent (setVarBind env varBind state).state.vars := by
  cases setVarBind_done pure varBind state with
  | refused _ same => rw [same.2]; exact consistent
  | written _ _ _ _ vars =>
    split at vars
    · exact setVar_consistent consistent vars
    · rw [vars]; exact consistent
  | unfit _ _ _ creates => exact creates.consistent consistent
  | created _ _ _ _ creates => exact creates.consistent consistent

theorem setVarBinds_consistent (pure : SideEffectFree env) (varBinds : List VarBind) {loop : SetLoop σ}
    (consistent : Consistent loop.state.vars) : Consistent (setVarBinds env varBinds loop).state.vars := by
  induction varBinds generalizing loop with
  | nil => exact consistent
  | cons varBind _ ih =>
    have turn := turn_consistent pure varBind consistent
    rw [setVarBinds]
    split
    · exact ih turn
    · exact turn

section

variable (pure : SideEffectFree env)
include pure

theorem rollbackItem_consistent (consistent : Consistent state.vars) (item : SetItem) :
    Consistent (rollbackItem env state item).vars := by
  cases found : findInstance state.instTree item.varBind.soid with
  | none =>
    rw [rollbackItem, found]
    exact consistent
  | some =>
    obtain ⟨after, same, undone⟩ := rollbackItem_found pure item found
    have kept : Consistent after.vars := by rw [same.2]; exact consistent
    rw [undone]
    split_ifs
    · exact unset_consistent kept
    · split
      · exact rewrite_consistent kept _ _
      · exact kept

theorem rollback_consistent (items : List SetItem) (consistent : Consistent state.vars) :
    Consistent (items.foldl (rollbackItem env) state).vars := by
  induction items generalizing state with
  | nil => exact consistent
  | cons item _ ih => exact ih (rollbackItem_consistent pure consistent item)

theorem commitItems_same (items : List SetItem) (state : AgentState σ) :
    SameData state (commitItems env items state) := by
  induction items generalizing state with
  | nil => exact .refl state
  | cons item _ ih =>
    rw [commitItems]
    split
    · exact ih state
    next inst _ =>
      exact (evalNodeBinding_same pure .commit inst item.varBind.value item.oldValue state).trans (ih _)

theorem checkResponse_same (varBinds : List VarBind) (loop : SetLoop σ) :
    SameData loop.state (checkResponse env varBinds loop).1 := by
  have same := checkItems_same pure (allItems varBinds loop.done) 0 loop.state
  unfold checkResponse
  dsimp only
  split_ifs
  · split
    next after checked =>
      rw [checked] at same
      exact same
    next after _ _ checked =>
      rw [checked] at same
      exact same
  · exact .refl loop.state

theorem setRequest_consistent (varBinds : List VarBind) (consistent : Consistent state.vars) :
    Consistent (setRequest env varBinds state).state.vars := by
  have looped : Consistent (setVarBinds env varBinds ⟨state, [], [], emptyResponse⟩).state.vars :=
    setVarBinds_consistent pure varBinds consistent
  have checked :
      Consistent (checkResponse env varBinds (setVarBinds env varBinds ⟨state, [], [], emptyResponse⟩)).1.vars := by
    rw [(checkResponse_same pure varBinds _).2]
    exact looped
  unfold setRequest
  dsimp only
  split_ifs
  · rw [(commitItems_same pure _ _).2]
    exact checked
  · exact rollback_consistent pure _ checked

end

theorem setVarBinds_reverts (like : AgentState σ → AgentState σ → Prop) (start : AgentState σ) (varBinds : List VarBind)
    (loop : SetLoop σ) (each : ∀ turn ∈ setTurns env varBinds loop.state, Reverts (rollbackItem env) like turn.1
      (setVarBind env turn.2 turn.1).item.toList (setVarBind env turn.2 turn.1).state)
    (reverts : Reverts (rollbackItem env) like start loop.done loop.state) :
    Reverts (rollbackItem env) like start (setVarBinds env varBinds loop).done
      (setVarBinds env varBinds loop).state := by
  induction varBinds generalizing loop with
  | nil => exact reverts
  | cons varBind _ ih =>
    rw [setTurns] at each
    have turn := reverts.trans (each _ mem_cons_self)
    rw [setVarBinds]
    cases answer : (setVarBind env varBind loop.state).answer with
    | bound =>
      rw [answer] at each
      exact ih _ (fun later member => each later (mem_cons_of_mem _ member)) turn
    | failed => exact turn

/-- Instances are added and get values, and no value is taken away. -/
structure Enlarged (before after : AgentState σ) : Prop where
  kept : ∀ oid inst, findInstance before.instTree oid = some inst → findInstance after.instTree oid = some inst
  fresh : ∀ oid inst, findInstance after.instTree oid = some inst →
    findInstance before.instTree oid = some inst ∨ (after.vars.value (after.cell inst)).isSome
  values : ∀ target, (before.vars.value target).isSome → (after.vars.value target).isSome
  names : after.vars.variableOf = before.vars.variableOf

theorem Enlarged.refl (state : AgentState σ) : Enlarged state state :=
  ⟨fun _ _ found => found, fun _ _ found => .inl found, fun _ isSet => isSet, rfl⟩

theorem Enlarged.trans {first second third : AgentState σ} (one : Enlarged first second) (two : Enlarged second third) :
    Enlarged first third where
  kept := fun oid inst found => two.kept oid inst (one.kept oid inst found)
  fresh := by
    intro oid inst found
    rcases two.fresh oid inst found with before | valued
    · rcases one.fresh oid inst before with earlier | valued
      · exact .inl earlier
      · refine .inr (two.values _ ?_)
        rwa [AgentState.cell, two.names]
    · exact .inr valued
  values := fun target isSet => two.values target (one.values target isSet)
  names := two.names.trans one.names

theorem Stored.grows {text : String} {written : TclVars} (stored : Stored vars name text written) (target : String)
    (isSet : (vars.value target).isSome) : (written.value target).isSome := by
  rw [stored.value]
  by_cases same : target = vars.variableOf name
  · simp [same]
  · rwa [update_of_ne same]

theorem rewrite_grows (text target : String) (isSet : (vars.value target).isSome) :
    (((vars.setVar name text).getD vars).value target).isSome := by
  cases stored : vars.setVar name text with
  | none => exact isSet
  | some => exact (setVar_stored stored).grows target isSet

theorem Creates.enlarged (creates : Creates env varBind state after node offset vars)
    (named : ∀ inst, findInstance after.instTree varBind.soid = some inst →
      inst.tclVarName = some (createdVarName env varBind.soid)) : Enlarged state after := by
  have elsewhere : ∀ oid, oid ≠ varBind.soid → findInstance after.instTree oid = findInstance state.instTree oid := by
    intro oid differs
    rw [creates.tree]
    exact findInstance_addNode_other state.reachable differs _
  have valued : (after.vars.value (state.vars.variableOf (createdVarName env varBind.soid))).isSome := by
    have first := setVar_stored creates.stored
    have isSet : (vars.value (state.vars.variableOf (createdVarName env varBind.soid))).isSome := by
      simp [first.value]
    rcases creates.assigned with unchanged | written
    · rw [unchanged]
      exact isSet
    · exact (setVar_stored written).grows _ isSet
  refine ⟨fun oid inst found => ?_, fun oid inst found => ?_, fun target isSet => ?_, creates.names⟩
  · rw [elsewhere oid, found]
    rintro rfl
    cases creates.missing.symm.trans found
  · by_cases same : oid = varBind.soid
    · subst same
      rw [AgentState.cell, creates.names, Node.varName, named inst found, getD_some]
      exact .inr valued
    · exact .inl ((elsewhere oid same).symm.trans found)
  · by_cases same : target = state.vars.variableOf (createdVarName env varBind.soid)
    · rw [same]
      exact valued
    · rw [(creates.elsewhere same).1]
      exact isSet

theorem turn_enlarged (pure : SideEffectFree env) (varBind : VarBind) (state : AgentState σ) :
    Enlarged state (setVarBind env varBind state).state := by
  cases setVarBind_done pure varBind state with
  | refused _ same =>
    refine ⟨?_, ?_, ?_, congrArg TclVars.variableOf same.2⟩
    · simp [same.1]
    · simp +contextual [same.1]
    · simp [same.2]
  | written inst _ _ tree vars =>
    have elsewhere : (∀ target, (state.vars.value target).isSome →
        ((setVarBind env varBind state).state.vars.value target).isSome) ∧
        (setVarBind env varBind state).state.vars.variableOf = state.vars.variableOf := by
      split at vars
      · exact ⟨(setVar_stored vars).grows, (setVar_stored vars).variableOf⟩
      · rw [vars]
        exact ⟨fun _ isSet => isSet, rfl⟩
    refine ⟨?_, ?_, elsewhere.1, elsewhere.2⟩
    · simp [tree]
    · simp +contextual [tree]
  | unfit _ _ _ creates _ unfound =>
    refine creates.enlarged fun inst found => ?_
    cases unfound.symm.trans found
  | created _ _ _ inst creates _ found named =>
    refine creates.enlarged fun other member => ?_
    cases found.symm.trans member
    exact named

theorem setVarBinds_enlarged (pure : SideEffectFree env) (varBinds : List VarBind) {loop : SetLoop σ}
    (enlarged : Enlarged state loop.state) : Enlarged state (setVarBinds env varBinds loop).state := by
  induction varBinds generalizing loop with
  | nil => exact enlarged
  | cons varBind _ ih =>
    have turn := enlarged.trans (turn_enlarged pure varBind loop.state)
    rw [setVarBinds]
    split
    · exact ih turn
    · exact turn

theorem setTurns_enlarged (pure : SideEffectFree env) (varBinds : List VarBind) (loop : SetLoop σ) :
    ∀ turn ∈ setTurns env varBinds loop.state, Enlarged loop.state turn.1 ∧
      Enlarged (setVarBind env turn.2 turn.1).state (setVarBinds env varBinds loop).state := by
  induction varBinds generalizing loop with
  | nil => simp [setTurns]
  | cons varBind rest ih =>
    have turn := turn_enlarged pure varBind loop.state
    cases answer : (setVarBind env varBind loop.state).answer with
    | bound =>
      obtain ⟨next, reached, loops⟩ : ∃ next : SetLoop σ, next.state = (setVarBind env varBind loop.state).state ∧
          setVarBinds env (varBind :: rest) loop = setVarBinds env rest next := by
        rw [setVarBinds, answer]
        exact ⟨_, rfl, rfl⟩
      rw [setTurns, answer, loops, forall_mem_cons, ← reached]
      rw [← reached] at turn
      exact ⟨⟨.refl _, setVarBinds_enlarged pure rest (.refl _)⟩, fun later member =>
        And.imp_left turn.trans (ih next later member)⟩
    | failed =>
      rw [setTurns, setVarBinds, answer]
      exact forall_mem_singleton.mpr ⟨.refl _, .refl _⟩

theorem turn_written (pure : SideEffectFree env) (found : findInstance state.instTree varBind.soid = some inst)
    (written : Written env inst varBind state) :
    ((setVarBind env varBind state).state.vars.value (state.cell inst)).isSome := by
  cases setVarBind_done pure varBind state with
  | refused _ _ unwritten => exact absurd written (unwritten inst found)
  | written other otherFound _ _ vars =>
    cases found.symm.trans otherFound
    rw [if_pos written] at vars
    rw [(setVar_stored vars).value]
    simp [AgentState.cell]
  | unfit _ _ _ creates => cases creates.missing.symm.trans found
  | created _ _ _ _ creates => cases creates.missing.symm.trans found

/-- Values need not be the same, but `target` has one. -/
def Holding (target : String) (state other : AgentState σ) : Prop :=
  Alike False state other ∧ (other.vars.value target).isSome

/-- The variable of an instance does not lose its value in the rollback. -/
theorem turn_holding (pure : SideEffectFree env) (creations : CreationSafe env state varBind) {place : Oid}
    (member : findInstance state.instTree place = some inst) :
    Reverts (rollbackItem env) (Holding (state.cell inst)) state (setVarBind env varBind state).item.toList
      (setVarBind env varBind state).state := by
  rintro other ⟨alike, valued⟩
  refine ⟨turn_reverts pure creations False.elim other alike, ?_⟩
  cases setVarBind_done pure varBind state with
  | refused item | unfit _ _ _ _ item =>
    rw [item]
    exact valued
  | written writer found item tree =>
    have otherFound : findInstance other.instTree varBind.soid = some writer := by rw [alike.instances, tree, found]
    obtain ⟨evaluated, same, undone⟩ := rollbackItem_found pure ⟨varBind, state.vars.value (state.cell writer), false⟩
      otherFound
    rw [← same.2] at valued
    rw [item, toList_some, foldl_cons, foldl_nil, undone]
    simp only [Bool.false_eq_true, if_false]
    split
    · exact rewrite_grows _ _ valued
    · exact valued
  | created _ _ _ bearer creates item found named =>
    obtain ⟨evaluated, same, undone⟩ := rollbackItem_found pure ⟨varBind, none, true⟩ ((alike.instances _).trans found)
    rw [← same.2] at valued
    have apart : state.cell inst ≠ evaluated.vars.variableOf bearer.varName := by
      rw [same.2, alike.names, creates.names, Node.varName, named, getD_some]
      exact (creates.safe creations).1.apart place inst member
    rw [item, toList_some, foldl_cons, foldl_nil, undone, if_pos rfl]
    simpa [unsetVar, TclVars.unset, update_of_ne apart] using valued

/-- The same instances, and the same value or no value in each of their variables. -/
def Unchanged (before after : AgentState σ) : Prop :=
  (∀ oid, findInstance after.instTree oid = findInstance before.instTree oid) ∧
    ∀ oid inst, findInstance before.instTree oid = some inst →
      after.vars.read inst.varName = before.vars.read inst.varName

/-- What can happen to an agent; `other` is what a script does to the result and the outside. -/
inductive AgentAction (σ : Type) where
  | create (label : Oid) (tclVarName : String) (defval : Option String)
  | bind (oid : Oid) (event : SnmpEvent) (command : Option String)
  | assign (name text : String)
  | unset (name : String)
  | link (variableOf : String → String)
  | request (varBinds : List VarBind)
  | other (result : String) (outside : σ)

def agentStart (variableOf : String → String) (outside : σ) : AgentState σ :=
  ⟨.nil, .empty, ⟨fun _ => none, fun _ => false, fun _ => 0, variableOf⟩, "", outside⟩

def agentStep (env : AgentEnv σ) (state : AgentState σ) : AgentAction σ → AgentState σ
  | .create label tclVarName defval => (tnmSnmpCreateNode env label tclVarName defval state).1
  | .bind oid event command =>
    { state with
      instTree := tnmSnmpSetNodeBinding state.instTree oid event command
      reachable := .bind oid event command state.reachable }
  | .assign name text => { state with vars := (state.vars.setVar name text).getD state.vars }
  | .unset name => unsetVar name state
  | .link variableOf => { state with vars.variableOf := variableOf }
  | .request varBinds => (setRequest env varBinds state).state
  | .other result outside => { state with result, outside }

theorem agentStep_consistent (pure : SideEffectFree env) (state : AgentState σ) (action : AgentAction σ)
    (consistent : Consistent state.vars) : Consistent (agentStep env state action).vars := by
  cases action with
  | create =>
    simp only [agentStep, tnmSnmpCreateNode]
    split
    · exact consistent
    · split
      · exact consistent
      · split
        · exact consistent
        next vars stored =>
          have stamped : Consistent vars := setVar_consistent consistent stored
          exact traceVar_consistent stamped
  | bind | link | other => exact consistent
  | assign name text => exact rewrite_consistent consistent name text
  | unset => exact unset_consistent consistent
  | request varBinds => exact setRequest_consistent pure varBinds consistent

theorem agentRun_consistent (pure : SideEffectFree env) (variableOf : String → String) (outside : σ)
    (actions : List (AgentAction σ)) :
    Consistent (run (agentStep env) (agentStart variableOf outside) actions).vars := by
  refine run_always (fun state : AgentState σ => Consistent state.vars) (agentStep_consistent pure) ?_ actions
  intro _ isSet
  cases isSet

theorem setRequest_failed (pure : SideEffectFree env) (varBinds : List VarBind) (state : AgentState σ)
    (failed : (setRequest env varBinds state).response.errorStatus ≠ noError) :
    ∃ checked, SameData (setVarBinds env varBinds ⟨state, [], [], emptyResponse⟩).state checked ∧
      (setRequest env varBinds state).state =
        (setVarBinds env varBinds ⟨state, [], [], emptyResponse⟩).done.foldl (rollbackItem env) checked := by
  refine ⟨_, checkResponse_same pure varBinds _, ?_⟩
  unfold setRequest at failed ⊢
  dsimp only at failed ⊢
  split_ifs at failed with fine
  · exact absurd fine failed
  · rw [if_neg fine]

/-- If what a SET request creates has variables of its own, then a request that fails leaves the instances and their
variables as they were exactly when every instance that it wrote had a value. -/
theorem failedSet_unchanged_iff (env : AgentEnv σ) (pure : SideEffectFree env) (variableOf : String → String)
    (outside : σ) (actions : List (AgentAction σ)) (varBinds : List VarBind) (state : AgentState σ)
    (reached : state = run (agentStep env) (agentStart variableOf outside) actions)
    (creations : ∀ turn ∈ setTurns env varBinds state, CreationSafe env turn.1 turn.2)
    (failed : (setRequest env varBinds state).response.errorStatus ≠ noError) :
    Unchanged state (setRequest env varBinds state).state ↔
      ∀ turn ∈ setTurns env varBinds state, WriteSafe env turn.1 turn.2 := by
  have consistent : Consistent state.vars := reached ▸ agentRun_consistent pure variableOf outside actions
  let first : SetLoop σ := ⟨state, [], [], emptyResponse⟩
  obtain ⟨checked, same, outcome⟩ := setRequest_failed pure varBinds state failed
  have alike {tracked : Prop} : Alike tracked (setVarBinds env varBinds first).state checked :=
    (Alike.refl (setVarBinds_consistent pure varBinds consistent)).same same
  rw [outcome]
  constructor
  · intro unchanged turn member inst found written
    by_contra valueless
    obtain ⟨before, behind⟩ := setTurns_enlarged pure varBinds first turn member
    have cell : turn.1.cell inst = state.cell inst := congrFun before.names inst.varName
    -- an instance of this request would have a value, so this one was there before, without one
    have known : findInstance state.instTree turn.2.soid = some inst :=
      (before.fresh _ inst found).resolve_right valueless
    have missing : state.vars.read inst.varName = none := by
      by_contra isSet
      exact valueless (cell ▸ before.values _ (ne_none_iff_isSome.mp isSet))
    have valued : (checked.vars.value (state.cell inst)).isSome := by
      rw [same.2, ← cell]
      exact behind.values _ (turn_written pure found written)
    have holding := setVarBinds_reverts (Holding (state.cell inst)) state varBinds first
      (fun later inside => by
        have enlarged := (setTurns_enlarged pure varBinds first later inside).1
        have holds := turn_holding pure (creations later inside) (enlarged.kept _ inst known)
        have laterCell : later.1.cell inst = state.cell inst := congrFun enlarged.names inst.varName
        rwa [laterCell] at holds)
      (.refl state) checked ⟨alike, valued⟩
    have restored := unchanged.2 _ inst known
    rw [missing, TclVars.read, holding.1.names] at restored
    have left := holding.2
    rw [AgentState.cell, restored] at left
    cases left
  · intro writes
    have reverts := setVarBinds_reverts (Alike True) state varBinds first
      (fun turn member => turn_reverts pure (creations turn member) fun _ => writes turn member)
      (.refl state) checked alike
    refine ⟨reverts.instances, fun oid inst found => ?_⟩
    rw [TclVars.read, reverts.names]
    exact reverts.values oid inst found trivial

def failingSet : List VarBind := [⟨[1, 3, 2, 1], "Integer32", "5"⟩, ⟨[1, 3, 9], "Integer32", "5"⟩]

/-- `::column(2)` and `column(2)` are one variable. -/
def globalName (name : String) : String :=
  if name.toList.take 2 = [':', ':'] then String.ofList (name.toList.drop 2) else name

def scripted (tclVarName : String) (defval : Option String) : AgentState Unit :=
  run (agentStep columnEnv) (agentStart globalName ()) [.create [1, 3, 2, 1] tclVarName defval]

theorem failedSet_unchanged_valued :
    (setRequest columnEnv failingSet (scripted "y" (some "4"))).response.errorStatus = noCreation ∧
      Unchanged (scripted "y" (some "4")) (setRequest columnEnv failingSet (scripted "y" (some "4"))).state := by
  have failed : (setRequest columnEnv failingSet (scripted "y" (some "4"))).response.errorStatus = noCreation := by
    decide
  have found : findInstance (scripted "y" (some "4")).instTree [1, 3, 2, 1] =
      some ⟨[1, 3, 2, 1], 6, 2, .readCreate, some "y", []⟩ := by
    decide
  refine ⟨failed, (failedSet_unchanged_iff columnEnv (fun _ _ => ⟨rfl, rfl⟩) globalName () _ _ _ rfl ?_
    fun fine => absurd (failed.symm.trans fine) (by decide)).mpr ?_⟩
  · intro _ member missing allowed
    rcases mem_cons.mp member with rfl | later
    · cases missing.symm.trans found
    · obtain rfl := mem_singleton.mp later
      exact absurd allowed (by decide)
  · intro _ member inst known
    rcases mem_cons.mp member with rfl | later
    · cases found.symm.trans known
      exact fun _ => (rfl : (some "4").isSome = true)
    · obtain rfl := mem_singleton.mp later
      have unknown : findInstance (setVarBind columnEnv ⟨[1, 3, 2, 1], "Integer32", "5"⟩
          (scripted "y" (some "4"))).state.instTree [1, 3, 9] = none := by
        decide
      cases unknown.symm.trans known

/-- A variable without a value keeps the new one, an instance is lost with its shared variable, and an instance loses
the value that it has under another name. -/
theorem failedSet_changed :
    let creatingSet : List VarBind := [⟨[1, 3, 2, 2], "Integer32", "5"⟩, ⟨[1, 3, 9], "Integer32", "5"⟩]
    let valueless := setRequest columnEnv failingSet (scripted "y" none)
    let shared := setRequest columnEnv creatingSet (scripted "column(2)" (some "4"))
    let qualified := setRequest columnEnv creatingSet (scripted "::column(2)" (some "4"))
    (valueless.response.errorStatus = noCreation ∧ (scripted "y" none).vars.read "y" = none ∧
      valueless.state.vars.read "y" = some "5") ∧
    (shared.response.errorStatus = noCreation ∧
      (findInstance (scripted "column(2)" (some "4")).instTree [1, 3, 2, 1]).isSome ∧
      findInstance shared.state.instTree [1, 3, 2, 1] = none) ∧
    (qualified.response.errorStatus = noCreation ∧
      (scripted "::column(2)" (some "4")).vars.read "::column(2)" = some "4" ∧
      (findInstance qualified.state.instTree [1, 3, 2, 1]).isSome ∧
      qualified.state.vars.read "::column(2)" = none) := by
  decide

end Tnm
