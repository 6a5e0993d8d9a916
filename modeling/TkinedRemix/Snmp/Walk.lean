import TkinedRemix.Snmp.Reception

/-!
Walks through a MIB (`tnmSnmpTcl.c`). `SyncWalk` fetches many rows with each GETBULK request, `AsyncWalkProc` one
row with each GETNEXT request. The agent is a parameter.
-/

namespace Tnm

open List Lib

def tnmOidInTree (tree oid : Oid) : Bool :=
  !(oid.length < tree.length) && (tree.zip oid).all fun pair => pair.1 == pair.2

def VarBind.endOfMibView (varBind : VarBind) : Bool :=
  tnmGetTableKey tnmSnmpExceptionTable varBind.asn1Type == some asn1EndOfMibView

/-- A loop over the columns until a test fails; looking behind the last varbind is `none`. -/
def checkColumns (test : Oid → VarBind → Bool) : List Oid → List VarBind → Option Bool
  | [], _ => some true
  | _ :: _, [] => none
  | column :: columns, varBind :: varBinds =>
    if test column varBind then checkColumns test columns varBinds else some false

def inside (column : Oid) (varBind : VarBind) : Bool := tnmOidInTree column varBind.soid

def inView (_ : Oid) (varBind : VarBind) : Bool := !varBind.endOfMibView

/-- The inner `none` is the null pointer. -/
def walkCheck (columns : List Oid) (vbListElems : List VarBind) : Option (Option (List VarBind)) := do
  if !(← checkColumns inside columns vbListElems) then return none
  if !(← checkColumns inView columns vbListElems) then return none
  return some (vbListElems.take columns.length)

/-- The existing varbinds of the columns pass the test. -/
def Passes (test : Oid → VarBind → Bool) (columns : List Oid) (row : List VarBind) : Prop :=
  ∀ pair ∈ columns.zip row, test pair.1 pair.2

instance (test : Oid → VarBind → Bool) (columns : List Oid) (row : List VarBind) :
    Decidable (Passes test columns row) :=
  inferInstanceAs (Decidable (∀ pair ∈ _, _))

theorem passes_cons (test : Oid → VarBind → Bool) (column : Oid) (columns : List Oid) (varBind : VarBind)
    (row : List VarBind) :
    Passes test (column :: columns) (varBind :: row) ↔ test column varBind ∧ Passes test columns row := by
  simp [Passes]

theorem checkColumns_eq (test : Oid → VarBind → Bool) (columns : List Oid) (row : List VarBind) :
    checkColumns test columns row =
      if Passes test columns row then if columns.length ≤ row.length then some true else none else some false := by
  induction columns, row using checkColumns.induct test with
  | case1 row | case2 column columns => simp [checkColumns, Passes]
  | case3 column columns varBind row passed ih => simp [checkColumns, passed, ih, passes_cons]
  | case4 column columns varBind row failed => simp [checkColumns, failed, passes_cons]

/-- No column of the row leaves its subtree or is endOfMibView. -/
def Stays (columns : List Oid) (row : List VarBind) : Prop :=
  Passes inside columns row ∧ Passes inView columns row

instance (columns : List Oid) (row : List VarBind) : Decidable (Stays columns row) :=
  inferInstanceAs (Decidable (_ ∧ _))

theorem walkCheck_eq (columns : List Oid) (row : List VarBind) : walkCheck columns row =
      if columns.length ≤ row.length then some (if Stays columns row then some (row.take columns.length) else none)
      else if Passes inside columns row then none else some none := by
  simp only [walkCheck, checkColumns_eq, Stays]
  split_ifs <;> simp_all

inductive BulkReply where
  | varBinds (vbList : List VarBind)
  | noSuchName
  | failed

/-- The names of the next request, the rows so far, and the result once the walk has ended. -/
structure Walk where
  varbind : List Oid
  rows : List (List VarBind)
  result : Option TclCode

section

-- The result of the script for the last of some rows; `none` where the variable cannot be set.
-- Codes that are none of the four end the walk as an error does.
variable (columns : List Oid) (script : List (List VarBind) → Option TclCode)

def Walk.evaluate (walk : Walk) (row : List VarBind) : Walk :=
  let rows := walk.rows ++ [row]
  match script rows with
  | none => { walk with varbind := row.map VarBind.soid, result := some .error }
  | some .error => ⟨row.map VarBind.soid, rows, some .error⟩
  | some .break_ => ⟨row.map VarBind.soid, rows, some .ok⟩
  | some .ok | some .continue_ => ⟨row.map VarBind.soid, rows, none⟩

def Walk.deliver (walk : Walk) (vbListElems : List VarBind) : Walk :=
  match walkCheck columns vbListElems with
  | some (some newList) => walk.evaluate script newList
  | _ => { walk with result := some .ok }

def Walk.deliverRows : Nat → List VarBind → Walk → Walk
  | 0, _, walk => walk
  | count + 1, vbListElems, walk =>
    let walk := walk.deliver columns script (vbListElems.take columns.length)
    if walk.result.isSome then walk else deliverRows count (vbListElems.drop columns.length) walk

def warpFactor : Int := 4

/-- The loop of `SyncWalk`, for at most `fuel` requests. -/
def syncWalkFrom (agent : Nat → List Oid → Nat → BulkReply) : Nat → Nat → Int → Int → Walk → Walk
  | 0, _, _, _, walk => walk
  | fuel + 1, request, numRepeaters, warpLimit, walk =>
    let numRepeaters := if numRepeaters < warpLimit then numRepeaters + warpFactor else numRepeaters
    let repetitions := if numRepeaters / columns.length > 0 then (numRepeaters / columns.length).toNat else 1
    match agent request walk.varbind repetitions with
    | .noSuchName => { walk with result := some .ok }
    | .failed => { walk with result := some .error }
    | .varBinds vbList =>
      if vbList.length < columns.length then { walk with result := some .error }
      else
        let vbListLen := vbList.length - vbList.length % columns.length
        let slower := vbListLen < vbList.length ∧ 0 < warpLimit
        let walk := walk.deliverRows columns script (vbListLen / columns.length) vbList
        if walk.result.isSome then walk
        else if slower then
          syncWalkFrom agent fuel (request + 1) (numRepeaters - warpFactor) (numRepeaters - warpFactor) walk
        else syncWalkFrom agent fuel (request + 1) numRepeaters warpLimit walk

def syncWalk (agent : Nat → List Oid → Nat → BulkReply) (fuel : Nat) : Walk :=
  if columns.length = 0 then ⟨[], [], some .ok⟩
  else syncWalkFrom columns script agent fuel 0 0 48 ⟨columns, [], none⟩

/-- The variable that follows a name in the agent's view. -/
abbrev View := Oid → Option VarBind

def View.next (view : View) (name : Oid) : VarBind := (view name).getD ⟨name, "endOfMibView", ""⟩

def View.row (view : View) (names : List Oid) : List VarBind := names.map view.next

def View.bulk (view : View) : List Oid → Nat → List VarBind
  | _, 0 => []
  | names, repetitions + 1 => view.row names ++ view.bulk ((view.row names).map VarBind.soid) repetitions

/-- The answer is the one the view prescribes, or the beginning of it with at least one full row. -/
def Conforms (view : Nat → View) (agent : Nat → List Oid → Nat → BulkReply) : Prop :=
  ∀ request names repetitions, 0 < repetitions → ∃ vbList, agent request names repetitions = .varBinds vbList ∧
    vbList <+: (view request).bulk names repetitions ∧ names.length ≤ vbList.length

/-- A walk row by row, each row the successors of the one before in the view at its time. -/
def rowWalk : List View → Walk → Walk
  | [], walk => walk
  | view :: views, walk =>
    if walk.result.isSome then walk
    else if Stays columns (view.row walk.varbind) then rowWalk views (walk.evaluate script (view.row walk.varbind))
    else { walk with result := some .ok }

/-- The rows of successors that begin with those of the names, each in the view at its time. -/
def rowsFrom : List View → List Oid → List (List VarBind)
  | [], _ => []
  | view :: views, names => view.row names :: rowsFrom views ((view.row names).map VarBind.soid)

/-- Each column is in its subtree and is not endOfMibView. -/
def Within (columns : List Oid) (row : List VarBind) : Prop :=
  ∀ pair ∈ columns.zip row, pair.1 <+: pair.2.soid ∧ pair.2.asn1Type ≠ "endOfMibView"

/-- Of the rows to come behind `done`, the script is evaluated for those that the last list adds. -/
inductive Evaluates (columns : List Oid) (script : List (List VarBind) → Option TclCode) :
    List (List VarBind) → List (List VarBind) → List (List VarBind) → Option TclCode → Prop
  | waiting (done) : Evaluates columns script done [] done none
  | left (done) {row rows} : ¬ Within columns row → Evaluates columns script done (row :: rows) done (some .ok)
  | unset {done row rows} : Within columns row → script (done ++ [row]) = none →
      Evaluates columns script done (row :: rows) done (some .error)
  | failed {done row rows} : Within columns row → script (done ++ [row]) = some .error →
      Evaluates columns script done (row :: rows) (done ++ [row]) (some .error)
  | stopped {done row rows} : Within columns row → script (done ++ [row]) = some .break_ →
      Evaluates columns script done (row :: rows) (done ++ [row]) (some .ok)
  | next {done row rows evaluated result} : Within columns row →
      script (done ++ [row]) = some .ok ∨ script (done ++ [row]) = some .continue_ →
      Evaluates columns script (done ++ [row]) rows evaluated result →
      Evaluates columns script done (row :: rows) evaluated result

/-- The views of some rows, of which the requests from `request` on bring `counts`. -/
def served (view : Nat → View) : Nat → List Nat → List View
  | _, [] => []
  | request, count :: counts => replicate count (view request) ++ served view (request + 1) counts

variable {columns script}

theorem Walk.evaluate_varbind (walk : Walk) (row : List VarBind) :
    (walk.evaluate script row).varbind = row.map VarBind.soid := by
  simp only [evaluate]
  split <;> rfl

theorem Walk.deliver_eq (walk : Walk) {row : List VarBind} (full : row.length = columns.length) :
    walk.deliver columns script row =
      if Stays columns row then walk.evaluate script row else { walk with result := some .ok } := by
  rw [deliver, walkCheck_eq, if_pos full.ge]
  split_ifs
  · rw [← full, take_length]
  · rfl

theorem rowWalk_ended {walk : Walk} (ended : walk.result.isSome) (views : List View) :
    rowWalk columns script views walk = walk := by
  cases views with
  | nil => rfl
  | cons view views => rw [rowWalk, if_pos ended]

theorem rowWalk_append (first second : List View) (walk : Walk) : rowWalk columns script (first ++ second) walk =
      rowWalk columns script second (rowWalk columns script first walk) := by
  induction first generalizing walk with
  | nil => rfl
  | cons view first ih =>
    rw [cons_append, rowWalk, rowWalk]
    split_ifs with ended stays
    · rw [rowWalk_ended ended]
    · exact ih _
    · rw [rowWalk_ended rfl]

theorem View.length_row (view : View) (names : List Oid) : (view.row names).length = names.length := length_map _

theorem Walk.deliverRows_eq (view : View) (count repetitions : Nat) (vbList : List VarBind) (walk : Walk)
    (running : walk.result = none) (width : walk.varbind.length = columns.length)
    (answer : vbList <+: view.bulk walk.varbind repetitions) (complete : count * columns.length ≤ vbList.length)
    (columned : 0 < columns.length) :
    walk.deliverRows columns script count vbList = rowWalk columns script (replicate count view) walk := by
  induction count generalizing repetitions vbList walk with
  | zero => rfl
  | succ count ih =>
    rw [Nat.add_mul] at complete
    have bounded := answer.length_le
    cases repetitions with
    | zero =>
      simp only [View.bulk, length_nil] at bounded
      omega
    | succ repetitions =>
      obtain ⟨missing, whole⟩ := answer
      have long : (view.row walk.varbind).length = columns.length := (view.length_row _).trans width
      have first : vbList.take columns.length = view.row walk.varbind := by
        rw [← take_append_of_le_length (by omega : _ ≤ vbList.length), whole, View.bulk, take_left' long]
      have rest : vbList.drop columns.length ++ missing =
          view.bulk ((view.row walk.varbind).map VarBind.soid) repetitions := by
        rw [← drop_append_of_le_length (by omega), whole, View.bulk, drop_left' long]
      rw [deliverRows, first, deliver_eq walk long, replicate_succ, rowWalk, running]
      by_cases stays : Stays columns (view.row walk.varbind)
      · simp only [Option.isSome_none, Bool.false_eq_true, if_false]
        split_ifs with ended
        · rw [rowWalk_ended ended]
        · refine ih repetitions _ _ (Option.not_isSome_iff_eq_none.mp ended) ?_ ?_ ?_
          · rw [evaluate_varbind, length_map, long]
          · rw [evaluate_varbind]
            exact ⟨missing, rest⟩
          · rw [length_drop]
            omega
      · simp [stays]

theorem rowWalk_width (views : List View) (walk : Walk) (width : walk.varbind.length = columns.length) :
    (rowWalk columns script views walk).varbind.length = columns.length := by
  induction views generalizing walk with
  | nil => exact width
  | cons view views ih =>
    rw [rowWalk]
    split_ifs
    · exact width
    · exact ih _ (by rw [Walk.evaluate_varbind, length_map, view.length_row, width])
    · exact width

theorem served_replicate (view : Nat → View) (request count : Nat) (counts : List Nat) (walk : Walk) :
    rowWalk columns script (served view request (count :: counts)) walk =
      rowWalk columns script (served view (request + 1) counts)
        (rowWalk columns script (replicate count (view request)) walk) :=
  rowWalk_append _ _ walk

theorem syncWalkFrom_eq {view : Nat → View} {agent : Nat → List Oid → Nat → BulkReply} (conforms : Conforms view agent)
    (columned : 0 < columns.length) (fuel request : Nat) (numRepeaters warpLimit : Int) (walk : Walk)
    (running : walk.result = none) (width : walk.varbind.length = columns.length) :
    ∃ counts, counts.length = fuel ∧ (∀ count ∈ counts, 0 < count) ∧
      syncWalkFrom columns script agent fuel request numRepeaters warpLimit walk =
        rowWalk columns script (served view request counts) walk := by
  induction fuel generalizing request numRepeaters warpLimit walk with
  | zero => exact ⟨[], rfl, by simp, rfl⟩
  | succ fuel ih =>
    rw [syncWalkFrom]
    generalize (if numRepeaters < warpLimit then numRepeaters + warpFactor else numRepeaters) = repeaters
    generalize asked : (if repeaters / columns.length > 0 then (repeaters / columns.length).toNat else 1) = repetitions
    have positive : 0 < repetitions := by split_ifs at asked <;> omega
    obtain ⟨vbList, answered, answer, full⟩ := conforms request walk.varbind repetitions positive
    rw [width] at full
    have oneRow := Nat.le_mul_of_pos_right columns.length (Nat.div_pos full columned)
    have parts := Nat.div_add_mod vbList.length columns.length
    have rows : 0 < (vbList.length - vbList.length % columns.length) / columns.length :=
      Nat.div_pos (by omega) columned
    have complete := Nat.div_mul_le_self (vbList.length - vbList.length % columns.length) columns.length
    simp only [answered, if_neg (Nat.not_lt.mpr full)]
    rw [Walk.deliverRows_eq (view request) _ repetitions vbList walk running width answer (by omega) columned]
    generalize (vbList.length - vbList.length % columns.length) / columns.length = count at rows
    have stillWide := @rowWalk_width _ script (replicate count (view request)) walk width
    split_ifs with ended
    · refine ⟨replicate (fuel + 1) count, by simp, fun other member => ?_, ?_⟩
      · rw [eq_of_mem_replicate member]
        exact rows
      · rw [replicate_succ, served_replicate, rowWalk_ended ended]
    all_goals
      obtain ⟨counts, length, positive, same⟩ :=
        ih (request + 1) _ _ _ (Option.not_isSome_iff_eq_none.mp ended) stillWide
      refine ⟨count :: counts, by simp [length], by simpa [rows] using positive, ?_⟩
      rw [served_replicate]
      exact same

theorem tnmOidInTree_iff (tree oid : Oid) : tnmOidInTree tree oid = true ↔ tree <+: oid := by
  induction tree generalizing oid with
  | nil => simp [tnmOidInTree]
  | cons subid tree ih =>
    cases oid with
    | nil => simp [tnmOidInTree]
    | cons other oid =>
      rw [cons_prefix_cons, ← ih]
      simp [tnmOidInTree]
      tauto

theorem endOfMibView_iff (varBind : VarBind) : varBind.endOfMibView = true ↔ varBind.asn1Type = "endOfMibView" := by
  unfold VarBind.endOfMibView
  generalize varBind.asn1Type = name
  constructor
  · intro found
    simp only [tnmGetTableKey, tnmSnmpExceptionTable, find?_cons] at found
    split at found
    · exact absurd found (by decide)
    · split at found
      · exact absurd found (by decide)
      · split at found
        next isLast => exact (beq_iff_eq.mp isLast).symm
        next => simp at found
  · rintro rfl
    decide

theorem stays_iff (columns : List Oid) (row : List VarBind) : Stays columns row ↔ Within columns row := by
  simp only [Stays, Passes, Within, inside, inView, tnmOidInTree_iff, ← forall_and, ne_eq,
    ← endOfMibView_iff, Bool.not_eq_true, Bool.not_eq_eq_eq_not, Bool.not_true]

theorem rowWalk_evaluates (views : List View) (walk : Walk) (running : walk.result = none) :
    Evaluates columns script walk.rows (rowsFrom views walk.varbind) (rowWalk columns script views walk).rows
      (rowWalk columns script views walk).result := by
  induction views generalizing walk with
  | nil =>
    rw [rowWalk, rowsFrom, running]
    exact .waiting _
  | cons view views ih =>
    rw [rowWalk, running, rowsFrom]
    simp only [Option.isSome_none, Bool.false_eq_true, if_false]
    split
    next stays =>
      have within := (stays_iff _ _).mp stays
      have later := ih (walk.evaluate script (view.row walk.varbind))
      rw [Walk.evaluate_varbind] at later
      cases code : script (walk.rows ++ [view.row walk.varbind]) with
      | none =>
        rw [rowWalk_ended (by simp [Walk.evaluate, code])]
        simp only [Walk.evaluate, code]
        exact .unset within code
      | some code' =>
        cases code' with
        | error =>
          rw [rowWalk_ended (by simp [Walk.evaluate, code])]
          simp only [Walk.evaluate, code]
          exact .failed within code
        | break_ =>
          rw [rowWalk_ended (by simp [Walk.evaluate, code])]
          simp only [Walk.evaluate, code]
          exact .stopped within code
        | ok | continue_ =>
          simp only [Walk.evaluate, code] at later ⊢
          exact .next within (by simp [code]) (later trivial)
    next leaves => exact .left _ (mt (stays_iff _ _).mpr leaves)

/-- Each request brings at least one row, and the script is evaluated row by row until one leaves its subtree. -/
theorem syncWalk_rows (columns : List Oid) (script : List (List VarBind) → Option TclCode) (view : Nat → View)
    (agent : Nat → List Oid → Nat → BulkReply) (conforms : Conforms view agent) (fuel : Nat) :
    (columns = [] → syncWalk columns script agent fuel = ⟨[], [], some .ok⟩) ∧
    (columns ≠ [] → ∃ counts, counts.length = fuel ∧ (∀ count ∈ counts, 0 < count) ∧
      Evaluates columns script [] (rowsFrom (served view 0 counts) columns) (syncWalk columns script agent fuel).rows
        (syncWalk columns script agent fuel).result) := by
  refine ⟨fun empty => by simp [syncWalk, empty], fun columned => ?_⟩
  rw [syncWalk, if_neg (by simpa using columned)]
  obtain ⟨counts, length, positive, same⟩ := @syncWalkFrom_eq columns script view agent conforms
    (length_pos_iff.mpr columned) fuel 0 0 48 ⟨columns, [], none⟩ rfl rfl
  refine ⟨counts, length, positive, ?_⟩
  rw [same]
  exact rowWalk_evaluates (served view 0 counts) ⟨columns, [], none⟩ rfl

end

def twoVariables : View := fun name =>
  if name = [1, 3] then some ⟨[1, 3, 1], "INTEGER", "5"⟩
  else if name = [1, 3, 1] then some ⟨[1, 3, 2], "INTEGER", "6"⟩ else none

def oneRowAgent (_ : Nat) (names : List Oid) (_ : Nat) : BulkReply := .varBinds (twoVariables.row names)

theorem oneRowAgent_conforms : Conforms (fun _ => twoVariables) oneRowAgent := by
  intro _ names _ positive
  obtain ⟨_, rfl⟩ := Nat.exists_eq_succ_of_ne_zero positive.ne'
  refine ⟨twoVariables.row names, rfl, ?_, (twoVariables.length_row names).ge⟩
  exact prefix_append _ _

theorem syncWalk_twoVariables :
    let walk := syncWalk [[1, 3]] (fun _ => some .ok) oneRowAgent 3
    walk.rows = [[⟨[1, 3, 1], "INTEGER", "5"⟩], [⟨[1, 3, 2], "INTEGER", "6"⟩]] ∧ walk.result = some .ok ∧
      ∃ counts, counts.length = 3 ∧ (∀ count ∈ counts, 0 < count) ∧ Evaluates [[1, 3]] (fun _ => some .ok) []
        (rowsFrom (served (fun _ => twoVariables) 0 counts) [[1, 3]]) walk.rows walk.result :=
  ⟨by decide, by decide,
    (syncWalk_rows [[1, 3]] (fun _ => some .ok) (fun _ => twoVariables) oneRowAgent oneRowAgent_conforms 3).2 nofun⟩

structure WalkResponse where
  errorStatus : Int
  varbind : List VarBind

/-- The varbinds of the next GETNEXT request, taken from the response; the inner `none` ends the walk. -/
def asyncWalkProc (columns : List Oid) (pdu : WalkResponse) : Option (Option (List VarBind)) :=
  if pdu.errorStatus ≠ 0 then some none
  else (walkCheck columns pdu.varbind).map fun newList => newList.map fun _ => pdu.varbind

def asyncWalk (columns : List Oid) : List WalkResponse → Option (List (List VarBind))
  | [] => some []
  | pdu :: responses => do
    match ← asyncWalkProc columns pdu with
    | none => return []
    | some request => return request :: (← asyncWalk columns responses)

def processed (columns : List Oid) : List WalkResponse → List WalkResponse
  | [] => []
  | pdu :: responses =>
    if pdu.errorStatus = 0 ∧ Stays columns pdu.varbind then pdu :: processed columns responses else [pdu]

/-- The response has one varbind for each column, or it ends the walk by the varbinds it has. -/
def Fitting (columns : List Oid) (pdu : WalkResponse) : Prop :=
  pdu.errorStatus ≠ 0 ∨ pdu.varbind.length = columns.length ∨ ¬ Passes inside columns pdu.varbind ∨
    columns.length < pdu.varbind.length ∧ ¬ Passes inView columns pdu.varbind

/-- No missing varbind is read, and each request has one varbind for each column. -/
def Sound (columns : List Oid) (requests : Option (List (List VarBind))) : Prop :=
  ∃ sent, requests = some sent ∧ ∀ request ∈ sent, request.length = columns.length

theorem sound_cons (columns : List Oid) (request : List VarBind) (requests : Option (List (List VarBind))) :
    Sound columns (requests.map (request :: ·)) ↔ request.length = columns.length ∧ Sound columns requests := by
  cases requests <;> simp [Sound]

theorem asyncWalk_running {columns : List Oid} {pdu : WalkResponse} (responses : List WalkResponse)
    (noError : pdu.errorStatus = 0) : asyncWalk columns (pdu :: responses) = if columns.length ≤ pdu.varbind.length then
        if Stays columns pdu.varbind then (asyncWalk columns responses).map (pdu.varbind :: ·) else some []
      else if Passes inside columns pdu.varbind then none else some [] := by
  rw [asyncWalk, asyncWalkProc, if_neg (by simp [noError]), walkCheck_eq]
  split_ifs <;> cases asyncWalk columns responses <;> rfl

theorem asyncWalk_sound_iff (columns : List Oid) (responses : List WalkResponse) :
    Sound columns (asyncWalk columns responses) ↔ ∀ pdu ∈ processed columns responses, Fitting columns pdu := by
  induction responses with
  | nil => simp [Sound, asyncWalk, processed]
  | cons pdu responses ih =>
    by_cases error : pdu.errorStatus = 0
    · rw [asyncWalk_running responses error]
      by_cases enough : columns.length ≤ pdu.varbind.length
      · by_cases stays : Stays columns pdu.varbind
        · have fitting : Fitting columns pdu ↔ pdu.varbind.length = columns.length := by
            simp [Fitting, error, stays.1, stays.2]
          rw [if_pos enough, if_pos stays, sound_cons, ih, processed, if_pos ⟨error, stays⟩, forall_mem_cons, fitting]
        · have fitting : Fitting columns pdu := by
            rcases enough.lt_or_eq with more | same
            · exact .inr (.inr ((not_and_or.mp stays).imp_right fun left => ⟨more, left⟩))
            · exact .inr (.inl same.symm)
          simp [processed, stays, Sound, enough, fitting]
      · have short : ¬ pdu.varbind.length = columns.length ∧ ¬ columns.length < pdu.varbind.length := by omega
        have fitting : Fitting columns pdu ↔ ¬ Passes inside columns pdu.varbind := by
          simp [Fitting, error, short]
        by_cases passed : Passes inside columns pdu.varbind
        · have unfit : ¬ ∀ other ∈ processed columns (pdu :: responses), Fitting columns other := by
            rw [processed]
            split_ifs <;> simp [fitting, passed]
          simp [enough, passed, Sound, unfit]
        · simp [passed, Sound, processed, Stays, fitting]
    · simp [Sound, asyncWalk, asyncWalkProc, processed, error, Fitting]

/-- Two columns and a response with one varbind, inside the first column. -/
theorem asyncWalk_missing : asyncWalk [[1, 3, 1], [1, 3, 2]] [⟨0, [⟨[1, 3, 1, 1], "INTEGER", "5"⟩]⟩] = none ∧
      asyncWalk [[1, 3]] [⟨0, [⟨[1, 3, 1], "INTEGER", "5"⟩, ⟨[1, 4], "INTEGER", "6"⟩]⟩] =
        some [[⟨[1, 3, 1], "INTEGER", "5"⟩, ⟨[1, 4], "INTEGER", "6"⟩]] :=
  ⟨rfl, rfl⟩

end Tnm
