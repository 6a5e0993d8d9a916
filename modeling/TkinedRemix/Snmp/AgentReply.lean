import TkinedRemix.Snmp.AgentRequest
import TkinedRemix.Snmp.InstLookup

/-!
Replies to GET and GETNEXT requests. The scripts may change the instances between two varbinds.
-/

namespace Tnm

open Lib Function

section

variable {σ : Type} (env : AgentEnv σ) (encodes : Response → Bool)

def executeRequest (version : SnmpVersion) (pdu : Pdu VarBind) (state : AgentState σ) : AgentState σ × Response :=
  if pdu.type = .set then
    let outcome := setRequest env pdu.varBinds state
    (outcome.state, outcome.response)
  else getRequest env version pdu.type pdu.varBinds state

/-- `EncodeMessage` cannot split a list with an open sublist. -/
def encodable (response : Response) : Bool := response.unclosed.isNone && encodes response

def computeReply (version : SnmpVersion) (pdu : Pdu VarBind) (state : AgentState σ) : Option Response :=
  let reply := encodeStatus version (selectReply pdu (executeRequest env version pdu state).2)
  if encodable encodes reply then some reply
  else
    let second := encodeStatus version (failedReply pdu reply)
    if encodes second then some second else none

def IsNextInstance (tree : InstTree) (oid next : Oid) : Prop :=
  (∃ node, (next, node) ∈ instances tree) ∧ tnmOidCompare oid next < 0 ∧
    ∀ other ∈ instances tree, tnmOidCompare oid other.1 < 0 → tnmOidCompare next other.1 ≤ 0

def Names (version : SnmpVersion) (type : PduType) (tree : InstTree) (request reply : VarBind) : Prop :=
  if type = .get then reply.soid = request.soid
  else
    IsNextInstance tree request.soid reply.soid ∨
      (version ≠ .v1 ∧ (∀ other ∈ instances tree, ¬ tnmOidCompare request.soid other.1 < 0) ∧
        reply = ⟨request.soid, "endOfMibView", ""⟩)

def Answers (version : SnmpVersion) (type : PduType) : AgentState σ → List VarBind → List VarBind → Prop
  | _, [], [] => True
  | state, request :: rest, reply :: replies =>
    Names version type state.instTree request reply ∧
      Answers version type (getVarBind env version type request state).1 rest replies
  | _, _, _ => False

def firstUnserved (version : SnmpVersion) (type : PduType) : List VarBind → AgentState σ → Option Nat
  | [], _ => none
  | varBind :: rest, state =>
    match getVarBind env version type varBind state with
    | (_, .failed _ _) => some 1
    | (after, .bound _) => (firstUnserved version type rest after).map (· + 1)

def TooLong (version : SnmpVersion) (pdu : Pdu VarBind) (state : AgentState σ) : Prop :=
  tnmSnmpMaxSize ≤ env.textLength (getVarBinds env version pdu.type pdu.varBinds emptyResponse state).2

end

variable {tree : InstTree}

theorem findInstance_label {oid : Oid} {inst : Node} (reachable : ReachableTree tree)
    (found : findInstance tree oid = some inst) : inst.label = oid := by
  obtain ⟨wellFormed, rooted⟩ := reachable_wellFormed tree reachable
  exact findNode_label wellFormed rooted (Option.filter_eq_some_iff.mp found).1

theorem findNextInstance_eq (reachable : ReachableTree tree) (oid : Oid) :
    findNextInstance tree oid = findNextNode tree oid := by
  obtain ⟨wellFormed, _⟩ := reachable_wellFormed tree reachable
  cases found : findNextNode tree oid with
  | none => rw [findNextInstance, found, Option.filter_none]
  | some node =>
    have member := ((findNextNode_some_iff tree oid node wellFormed).mp found).1
    rw [findNextInstance, found, Option.filter_some, if_pos (by simpa using (List.mem_filter.mp member).2)]

variable {σ : Type} {env : AgentEnv σ} {version : SnmpVersion} {type : PduType} {request reply : VarBind}

theorem missingAnswer_names (reachable : ReachableTree tree) (isGet : type = .get ∨ type = .getnext)
    (missing : requestedInstance type tree request.soid = none)
    (bound : missingAnswer env version type request.soid = .bound reply) : Names version type tree request reply := by
  unfold missingAnswer at bound
  split_ifs at bound with first get
  · rw [Names, if_pos get]
    split at bound
    · cases bound
      rfl
    · split_ifs at bound <;> cases bound <;> rfl
  · cases bound
    obtain rfl : type = .getnext := isGet.resolve_left get
    rw [requestedInstance, if_pos (.inl rfl), findNextInstance_eq reachable,
      findNextNode_none_iff tree _ (reachable_wellFormed tree reachable).1] at missing
    simp only [← tnmOidCompare_neg_iff] at missing
    exact .inr ⟨first, missing, rfl⟩

variable {state after : AgentState σ}

theorem foundAnswer_label {inst : Node} {value : String}
    (bound : foundAnswer env inst value state = (after, .bound reply)) : reply.soid = inst.label := by
  unfold foundAnswer at bound
  dsimp only at bound
  split_ifs at bound
  · cases bound
  · split at bound
    · cases bound
    · cases bound
      rfl

theorem getVarBind_names (isGet : type = .get ∨ type = .getnext)
    (bound : getVarBind env version type request state = (after, .bound reply)) :
    Names version type state.instTree request reply := by
  unfold getVarBind at bound
  split_ifs at bound with readable
  · split at bound
    next missing => exact missingAnswer_names state.reachable isGet missing (congrArg Prod.snd bound)
    next inst found =>
      have label := foundAnswer_label bound
      rcases isGet with rfl | rfl
      · rw [Names, label]
        exact findInstance_label state.reachable found
      · rw [Names, label]
        rw [requestedInstance, if_pos (.inl rfl), findNextInstance_eq state.reachable,
          findNextNode_some_iff _ _ _ (reachable_wellFormed _ state.reachable).1] at found
        simp only [← tnmOidCompare_neg_iff, ← tnmOidCompare_nonpos_iff] at found
        exact .inl ⟨⟨inst, found.1⟩, found.2⟩
  · cases bound

theorem getVarBind_failed {errorStatus : Int} {unclosed : Option (List String)}
    (failed : getVarBind env version type request state = (after, .failed errorStatus unclosed)) :
    errorStatus ≠ noError ∨ unclosed.isSome := by
  unfold getVarBind at failed
  split_ifs at failed
  · split at failed
    · have answer := congrArg Prod.snd failed
      unfold missingAnswer at answer
      split_ifs at answer
      · cases answer
        exact .inl (by decide)
      · split at answer
        · cases answer
        · split_ifs at answer
    · unfold foundAnswer at failed
      dsimp only at failed
      split_ifs at failed
      · cases failed
        exact .inr rfl
      · split at failed
        · cases failed
          exact .inr rfl
        · cases failed
  · cases failed
    exact .inl (by decide)

theorem getVarBinds_served {varBinds : List VarBind} (response : Response) (isGet : type = .get ∨ type = .getnext)
    (served : firstUnserved env version type varBinds state = none) :
    ∃ replies, Answers env version type state varBinds replies ∧
      (getVarBinds env version type varBinds response state).2 =
        { response with varBinds := response.varBinds ++ replies } := by
  induction varBinds generalizing response state with
  | nil => exact ⟨[], trivial, by simp [getVarBinds]⟩
  | cons _ _ ih =>
    rw [firstUnserved] at served
    split at served
    · cases served
    next after reply turn =>
      obtain ⟨replies, answers, built⟩ :=
        ih { response with varBinds := response.varBinds ++ [reply] } (Option.map_eq_none_iff.mp served)
      refine ⟨reply :: replies, ⟨getVarBind_names isGet turn, by rw [turn]; exact answers⟩, ?_⟩
      rw [getVarBinds, turn]
      simpa using built

theorem getVarBinds_unserved {varBinds : List VarBind} {position : Nat} (response : Response)
    (unserved : firstUnserved env version type varBinds state = some position) :
    (getVarBinds env version type varBinds response state).2.errorIndex = response.varBinds.length + position ∧
      ((getVarBinds env version type varBinds response state).2.errorStatus ≠ noError ∨
        (getVarBinds env version type varBinds response state).2.unclosed.isSome) := by
  induction varBinds generalizing response state position with
  | nil => cases unserved
  | cons _ _ ih =>
    rw [firstUnserved] at unserved
    split at unserved
    next after errorStatus unclosed turn =>
      cases unserved
      rw [getVarBinds, turn]
      exact ⟨rfl, getVarBind_failed turn⟩
    next after reply turn =>
      obtain ⟨_, found, rfl⟩ := Option.map_eq_some_iff.mp unserved
      rw [getVarBinds, turn]
      have later := ih { response with varBinds := response.varBinds ++ [reply] } found
      refine ⟨?_, later.2⟩
      rw [later.1]
      simp only [List.length_append, List.length_singleton]
      omega

theorem encodeStatus_noError (version : SnmpVersion) (response : Response) :
    (encodeStatus version response).errorStatus = noError ↔ response.errorStatus = noError := by
  unfold encodeStatus
  split_ifs
  · simp only [v1ErrorStatus, noError, genErr, noSuchName, badValue]
    omega
  · rfl

@[simp] theorem encodeStatus_fields (response : Response) :
    (encodeStatus version response).varBinds = response.varBinds ∧
    (encodeStatus version response).errorIndex = response.errorIndex ∧
      (encodeStatus version response).unclosed = response.unclosed := by
  unfold encodeStatus
  split_ifs <;> exact ⟨rfl, rfl, rfl⟩

theorem selectReply_error (pdu : Pdu VarBind) (response : Response) :
    (selectReply pdu response).errorIndex = response.errorIndex ∧
      ((selectReply pdu response).errorStatus = noError ↔ response.errorStatus = noError) := by
  unfold selectReply
  split_ifs <;> exact ⟨rfl, .rfl⟩

theorem getRequest_errorIndex {pdu : Pdu VarBind} {response : Response} (isGet : pdu.type = .get ∨ pdu.type = .getnext)
    (made : (getRequest env version pdu.type pdu.varBinds state).2 = response) :
    (∃ position : Nat, firstUnserved env version pdu.type pdu.varBinds state = some position ∧
      response.errorIndex = position) ∨ (TooLong env version pdu state ∧ response.errorIndex = 0) ∨
    (firstUnserved env version pdu.type pdu.varBinds state = none ∧ response.errorStatus = noError ∧
      response.errorIndex = 0) := by
  subst made
  by_cases long : TooLong env version pdu state
  · refine .inr (.inl ⟨long, ?_⟩)
    simp only [getRequest, Response.fits, if_pos (show tnmSnmpMaxSize ≤ _ from long)]
  · simp only [getRequest, Response.fits, if_neg (show ¬ tnmSnmpMaxSize ≤ _ from long)]
    cases served : firstUnserved env version pdu.type pdu.varBinds state with
    | some position =>
      rw [(getVarBinds_unserved emptyResponse served).1]
      simp [emptyResponse]
    | none =>
      obtain ⟨_, _, built⟩ := getVarBinds_served emptyResponse isGet served
      rw [built]
      exact .inr (.inr ⟨rfl, rfl, rfl⟩)

theorem getRequest_answers {pdu : Pdu VarBind} {response : Response} (isGet : pdu.type = .get ∨ pdu.type = .getnext)
    (made : (getRequest env version pdu.type pdu.varBinds state).2 = response)
    (fine : response.errorStatus = noError) (closed : response.unclosed = none) :
    Answers env version pdu.type state pdu.varBinds response.varBinds := by
  subst made
  simp only [getRequest, Response.fits] at fine closed ⊢
  split_ifs at fine closed ⊢ with long
  · cases fine
  · cases served : firstUnserved env version pdu.type pdu.varBinds state with
    | some =>
      rcases (getVarBinds_unserved emptyResponse served).2 with error | unclosed
      · exact absurd fine error
      · simp [closed] at unclosed
    | none =>
      obtain ⟨_, answers, built⟩ := getVarBinds_served emptyResponse isGet served
      rw [built]
      exact answers

/-- The reply answers every varbind in order, or its index names the first one that could not be served. -/
theorem computeReply_answers (env : AgentEnv σ) (encodes : Response → Bool) (version : SnmpVersion)
    (pdu : Pdu VarBind) (state : AgentState σ) (reply : Response) (isGet : pdu.type = .get ∨ pdu.type = .getnext)
    (sent : computeReply env encodes version pdu state = some reply) :
    (reply.errorStatus = noError → Answers env version pdu.type state pdu.varBinds reply.varBinds) ∧
    (reply.errorStatus ≠ noError → reply.varBinds = pdu.varBinds ∧
      ((∃ position : Nat, firstUnserved env version pdu.type pdu.varBinds state = some position ∧
          reply.errorIndex = position) ∨ (TooLong env version pdu state ∧ reply.errorIndex = 0) ∨
        (firstUnserved env version pdu.type pdu.varBinds state = none ∧ reply.errorStatus = genErr ∧
          reply.errorIndex = 0))) := by
  have notSet : pdu.type ≠ .set := by rcases isGet with _ | _ <;> simp [*]
  simp only [computeReply, executeRequest, if_neg notSet] at sent
  generalize made : (getRequest env version pdu.type pdu.varBinds state).2 = response at sent
  have index := getRequest_errorIndex isGet made
  obtain ⟨sameIndex, sameError⟩ := selectReply_error pdu response
  split_ifs at sent with first
  · cases sent
    rw [ne_eq, encodeStatus_noError, sameError, (encodeStatus_fields _).1, (encodeStatus_fields _).2.1, sameIndex]
    refine ⟨fun fine => ?_, fun error => ?_⟩
    · have closed : response.unclosed = none := by
        simpa [selectReply, fine] using (Bool.and_eq_true_iff.mp first).1
      rw [selectReply, if_pos fine]
      exact getRequest_answers isGet made fine closed
    · refine ⟨by rw [selectReply, if_neg error]; rfl, ?_⟩
      rcases index with named | long | ⟨_, fine, _⟩
      · exact .inl named
      · exact .inr (.inl long)
      · exact absurd fine error
  · cases sent
    have general : ∀ reply, (encodeStatus version (failedReply pdu reply)).errorStatus = genErr := by
      intro
      unfold encodeStatus
      split_ifs <;> rfl
    rw [general, (encodeStatus_fields _).1, (encodeStatus_fields _).2.1, failedReply,
      (encodeStatus_fields _).2.1, sameIndex]
    refine ⟨nofun, fun _ => ⟨rfl, ?_⟩⟩
    rcases index with named | long | ⟨served, _, zero⟩
    · exact .inl named
    · exact .inr (.inl long)
    · exact .inr (.inr ⟨served, rfl, zero⟩)

def instanceWith (value : String) : AgentState Unit where
  instTree := (addNode .nil [1, 3, 1, 0] 6 2 .readWrite (some "x")).1
  reachable := .add _ _ _ _ _ .empty
  vars := ⟨fun name => if name = "x" then some value else none, fun _ => false, fun _ => 0, id⟩
  result := ""
  outside := ()

def oneInstance : AgentState Unit := instanceWith "42"

/-- The length of a list element that needs at most braces. -/
def elementLength (text : String) : Nat := if text = "" ∨ ' ' ∈ text.toList then text.length + 2 else text.length

def sublistLength (varBind : VarBind) : Nat :=
  elementLength (oidText varBind.soid) + elementLength varBind.asn1Type + elementLength varBind.value + 4

/-- No scripts and no MIB. Sublists are separated by a blank. -/
def plainEnv : AgentEnv Unit where
  mib _ := none
  eval _ state := (state, .ok)
  textLength response := (response.varBinds.map sublistLength).sum + (response.varBinds.length - 1)

def instanceRequest (type : PduType) : Pdu VarBind := ⟨type, 7, 0, 0, "", [⟨[1, 3, 1, 0], "NULL", ""⟩]⟩

theorem computeReply_answers_oneInstance :
    let reply : Response := ⟨noError, 0, [⟨[1, 3, 1, 0], "Integer32", "42"⟩], none⟩
    computeReply plainEnv (fun _ => true) .v2c (instanceRequest .get) oneInstance = some reply ∧
      Answers plainEnv .v2c .get oneInstance (instanceRequest .get).varBinds reply.varBinds := by
  have sent : computeReply plainEnv (fun _ => true) .v2c (instanceRequest .get) oneInstance =
      some ⟨noError, 0, [⟨[1, 3, 1, 0], "Integer32", "42"⟩], none⟩ := by decide
  exact ⟨sent, (computeReply_answers plainEnv (fun _ => true) .v2c (instanceRequest .get) oneInstance _
    (.inl rfl) sent).1 rfl⟩

theorem computeReply_tooBig {value : String} (long : tnmSnmpMaxSize ≤ value.length) :
    computeReply plainEnv (fun _ => true) .v2c (instanceRequest .get) (instanceWith value) =
      some ⟨tooBig, 0, (instanceRequest .get).varBinds, none⟩ := by
  have built : getVarBinds plainEnv .v2c .get (instanceRequest .get).varBinds emptyResponse (instanceWith value) =
      (instanceWith value, ⟨noError, 0, [⟨[1, 3, 1, 0], "Integer32", value⟩], none⟩) := rfl
  have length : tnmSnmpMaxSize ≤ plainEnv.textLength ⟨noError, 0, [⟨[1, 3, 1, 0], "Integer32", value⟩], none⟩ := by
    have word : value.length ≤ elementLength value := by
      unfold elementLength
      split <;> omega
    simp only [plainEnv, sublistLength, List.map_cons, List.map_nil, List.sum_cons, List.sum_nil]
    omega
  have executed : executeRequest plainEnv .v2c (instanceRequest .get) (instanceWith value) =
      (instanceWith value, ⟨tooBig, 0, [⟨[1, 3, 1, 0], "Integer32", value⟩], none⟩) := by
    rw [executeRequest, if_neg (by decide), getRequest]
    simp only [show (instanceRequest .get).type = .get from rfl, built, Response.fits, if_pos length]
  rw [computeReply, executed]
  rfl

/-- A reply that is too long is an error whose index names no varbind. -/
theorem longReply_indexZero :
    computeReply plainEnv (fun _ => true) .v2c (instanceRequest .get)
      (instanceWith (String.ofList (List.replicate 16384 'x'))) =
      some ⟨tooBig, 0, (instanceRequest .get).varBinds, none⟩ :=
  computeReply_tooBig (by rw [String.length_ofList, List.length_replicate]; decide)

/-- The steps of a request whose bindings let no other request in between. -/
def requestActions (env : AgentEnv σ) (encodes : Response → Bool) (beginScript endScript : AgentState σ → AgentState σ)
    (version : SnmpVersion) (session : Nat) (pdu : Pdu VarBind) (world : AgentState σ) :
    List (CacheAction (AgentState σ)) :=
  let (after, response) := executeRequest env version pdu (beginScript world)
  let reply := encodeStatus version (selectReply pdu response)
  [.receive session pdu, .script (beginScript world), .reserve, .respond response after, .finish,
    .script (endScript after), .encode (encodes reply)] ++
    if encodable encodes reply then [] else [.encode (encodes (encodeStatus version (failedReply pdu reply)))]

theorem encodable_iff {encodes : Response → Bool} {response : Response} :
    encodable encodes (encodeStatus version response) = true ↔
      encodes (encodeStatus version response) = true ∧ response.unclosed = none := by
  simp [encodable, and_comm]

theorem requestActions_sent (env : AgentEnv σ) (encodes : Response → Bool)
    (beginScript endScript : AgentState σ → AgentState σ) (sessions : Sessions) (session : Nat)
    (pdu : Pdu VarBind) (state : CacheState (AgentState σ)) (reply : Response)
    (missed : cacheHit sessions session pdu state.clock (clearedFor sessions state session pdu) = none)
    (sent : computeReply env encodes (sessions.version session) pdu (beginScript state.world) = some reply) :
    .sent state.received session pdu reply ∈ (run (cacheStep sessions) state
      (requestActions env encodes beginScript endScript (sessions.version session) session pdu state.world)).log := by
  simp only [computeReply] at sent
  simp only [requestActions, List.cons_append, run_cons]
  simp only [cacheStep, receiveRequest, missed, beginRequest, reserveSlot, finishReply, setSlot, update_self]
  split_ifs at sent with first second
  · cases sent
    rw [if_pos first, if_pos (encodable_iff.mp first)]
    simp [sendReply]
  · cases sent
    rw [if_neg first, if_neg (mt encodable_iff.mpr first)]
    simp [cacheStep, replaceReply, sendReply, setSlot, second]

end Tnm
