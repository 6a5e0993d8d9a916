import TkinedRemix.Lib.DepthFirst
import TkinedRemix.Map.ItemCore

/-!
The order in which `DumpMap` writes the items of a map.
-/

namespace Tnm.Map

open Lib List

/-- The items whose dumped flag is set, in the order in which it was, and the text so far. -/
structure Dump where
  dumped : List Nat
  ds : List Char

section

variable (text : Item → List Char)

def Item.pointers (item : Item) : List (Option Nat) := [item.parent, item.srcPtr, item.dstPtr]

def Dump.emit (dump : Dump) (id : Nat) (item : Item) : Dump :=
  { dumped := dump.dumped ++ [id], ds := dump.ds ++ '\n' :: text item }

/-- `DumpMapProc`; the calls nest at most as deep as the fuel. -/
def dumpMapProc (world : World) : Nat → Nat → Dump → Option Dump
  | 0, _, _ => none
  | fuel + 1, id, dump =>
    (world.heap id).bind fun item =>
      if id ∈ dump.dumped then some dump
      else
        (item.pointers.foldlM (fun dump (pointer : Option Nat) =>
          pointer.elim (some dump) fun target => dumpMapProc world fuel target dump) dump).map fun dump =>
            Dump.emit text dump id item

def World.mapItems (world : World) (map : Nat) : List Nat :=
  world.itemList.filter fun id => (world.heap id).any fun item => item.mapPtr == map

def dumpMap (world : World) (map : Nat) (header : List Char) (fuel : Nat) : Option Dump :=
  (world.mapItems map).foldlM (fun dump id =>
    if id ∈ dump.dumped then some dump else dumpMapProc text world fuel id dump) { dumped := [], ds := header }

end

section

variable {world : World} {map : Nat}

def World.Points (world : World) (id target : Nat) : Prop :=
  ∃ item, world.heap id = some item ∧ some target ∈ item.pointers

def World.targets (world : World) (map id : Nat) : List Nat :=
  if id ∈ world.mapItems map then
    ((world.heap id).map fun item => item.pointers.filterMap fun pointer => pointer).getD []
  else []

theorem targets_points {id target : Nat} (member : target ∈ world.targets map id) : world.Points id target := by
  unfold World.targets at member
  split at member
  · rcases found : world.heap id with _ | item
    · rw [found] at member
      cases member
    · rw [found] at member
      obtain ⟨_, entry, same⟩ := mem_filterMap.mp member
      exact ⟨item, found, same ▸ entry⟩
  · cases member

theorem targets_stored {id : Nat} {item : Item} (listed : id ∈ world.mapItems map) (found : world.heap id = some item) :
    world.targets map id = item.pointers.filterMap fun pointer => pointer := by
  rw [World.targets, if_pos listed, found]
  rfl

variable (text : Item → List Char)

def World.texts (world : World) (ids : List Nat) : List Char :=
  ids.flatMap fun id => (world.heap id).elim [] fun item => '\n' :: text item

def World.dumpOf (world : World) (header : List Char) (done : List Nat) : Dump :=
  { dumped := done, ds := header ++ world.texts text done }

theorem dumpOf_emit {id : Nat} {item : Item} (found : world.heap id = some item) (header : List Char)
    (done : List Nat) :
    (world.dumpOf text header done).emit text id item = world.dumpOf text header (done ++ [id]) := by
  simp [Dump.emit, World.dumpOf, World.texts, found]

/-- A map whose references stay within it. -/
structure Closed (world : World) (map : Nat) : Prop where
  nodup : (world.mapItems map).Nodup
  closed : ∀ id ∈ world.mapItems map, ∀ target, world.Points id target → target ∈ world.mapItems map

theorem mapItems_stored {id : Nat} (listed : id ∈ world.mapItems map) : ∃ item, world.heap id = some item := by
  have live := (mem_filter.mp listed).2
  rcases found : world.heap id with _ | item
  · rw [found] at live
    cases live
  · exact ⟨item, rfl⟩

theorem foldlM_pointers {σ τ : Type} {step : Nat → σ → Option σ} {walk : Nat → τ → Option τ} {view : τ → σ}
    {pointers : List (Option Nat)} {state : τ}
    (agree : ∀ target, some target ∈ pointers → ∀ state, step target (view state) = (walk target state).map view) :
    pointers.foldlM (fun state pointer => pointer.elim (some state) fun target => step target state) (view state) =
      ((pointers.filterMap fun pointer => pointer).foldlM (fun state target => walk target state) state).map view := by
  induction pointers generalizing state with
  | nil => rfl
  | cons pointer _ ih =>
    have others := fun target member => agree target (mem_cons_of_mem _ member)
    cases pointer with
    | none => exact ih others
    | some target =>
      rw [filterMap_cons, foldlM_cons, foldlM_cons, Option.elim_some,
        agree target mem_cons_self state]
      rcases walk target state with _ | _
      · rfl
      · exact ih others

theorem dumpMapProc_visit (closed : Closed world map) (header : List Char) (fuel : Nat) {id : Nat}
    (listed : id ∈ world.mapItems map) (done : List Nat) :
    dumpMapProc text world fuel id (world.dumpOf text header done) =
      (visit (world.targets map) fuel id done).map (world.dumpOf text header) := by
  induction fuel generalizing id done with
  | zero => rfl
  | succ _ ih =>
    obtain ⟨item, found⟩ := mapItems_stored listed
    rw [dumpMapProc, visit, found, Option.bind_some]
    by_cases old : id ∈ done
    · rw [if_pos old, if_pos (show id ∈ (world.dumpOf text header done).dumped from old)]
      rfl
    · rw [if_neg old, if_neg (show id ∉ (world.dumpOf text header done).dumped from old),
        foldlM_pointers fun target member => ih (closed.closed id listed target ⟨item, found, member⟩),
        targets_stored listed found, Option.map_map, Option.map_map]
      refine congrArg (fun change => Option.map change _) ?_
      funext after
      exact dumpOf_emit text found header after

theorem dumpMap_visit (closed : Closed world map) (header : List Char) (fuel : Nat) (positive : 0 < fuel) :
    dumpMap text world map header fuel =
      ((world.mapItems map).foldlM (fun done id => visit (world.targets map) fuel id done) []).map
        (world.dumpOf text header) := by
  have items : ∀ (ids : List Nat) (done : List Nat), (∀ id ∈ ids, id ∈ world.mapItems map) →
      ids.foldlM (fun dump id => if id ∈ dump.dumped then some dump else dumpMapProc text world fuel id dump)
          (world.dumpOf text header done) =
        (ids.foldlM (fun done id => visit (world.targets map) fuel id done) done).map (world.dumpOf text header) := by
    intro ids
    induction ids with
    | nil => intro done _; rfl
    | cons id _ ih =>
      intro done inside
      have others := fun other member => inside other (mem_cons_of_mem id member)
      rw [foldlM_cons, foldlM_cons]
      -- the visit makes the same test again
      have first : (if id ∈ (world.dumpOf text header done).dumped then some (world.dumpOf text header done)
          else dumpMapProc text world fuel id (world.dumpOf text header done)) =
            (visit (world.targets map) fuel id done).map (world.dumpOf text header) := by
        split
        next old =>
          obtain ⟨fuel, rfl⟩ := Nat.exists_eq_succ_of_ne_zero (Nat.ne_of_gt positive)
          rw [visit, if_pos (show id ∈ done from old)]
          rfl
        next => exact dumpMapProc_visit text closed header fuel (inside id mem_cons_self) done
      rw [first]
      rcases visit (world.targets map) fuel id done with _ | middle
      · rfl
      · exact ih middle others
  have start : ({ dumped := [], ds := header } : Dump) = world.dumpOf text header [] := by
    rw [World.dumpOf, World.texts, flatMap_nil, append_nil]
  rw [dumpMap, start]
  exact items (world.mapItems map) [] fun id member => member

/-- Every item of the map is written once, behind its parent and the ends of a link, however the items are listed. -/
theorem dumpMap_ordered (header : List Char) (closed : Closed world map)
    (acyclic : ∀ id ∈ world.mapItems map, ¬Relation.TransGen world.Points id id) :
    ∃ bound dump, (∀ fuel ≥ bound, dumpMap text world map header fuel = some dump) ∧
      dump.dumped.Perm (world.mapItems map) ∧ dump.ds = header ++ world.texts text dump.dumped ∧
      ∀ before id after, dump.dumped = before ++ id :: after → ∀ item, world.heap id = some item →
        ∀ edge target, item.edge edge = some target → target ∈ before := by
  have leaves : ∀ id, id ∉ world.mapItems map → world.targets map id = [] := fun id outside => if_neg outside
  have loopless : ∀ id, ¬Relation.TransGen (fun id target => target ∈ world.targets map id) id id := by
    intro id cycle
    obtain ⟨target, first, _⟩ := Relation.TransGen.head'_iff.mp cycle
    have listed : id ∈ world.mapItems map := by
      by_contra outside
      rw [leaves id outside] at first
      cases first
    exact acyclic id listed (Relation.TransGen.mono (fun _ _ member => targets_points member) id id cycle)
  have wellFounded := wellFounded_of_acyclic leaves loopless
  obtain ⟨bound, done, listing, visited⟩ := visitAll_of Ordered.nil
    fun id (_ : id ∈ world.mapItems map) => visit_ordered wellFounded id
  have inside : ∀ id ∈ done, id ∈ world.mapItems map := by
    intro id member
    rcases visited.reached id member with none | ⟨_, listed, path⟩
    · cases none
    · clear member
      induction path with
      | refl => exact listed
      | tail _ refers ih => exact closed.closed _ ih _ (targets_points refers)
  refine ⟨bound + 1, world.dumpOf text header done, ?_, ?_, rfl, ?_⟩
  · intro fuel _
    rw [dumpMap_visit text closed header fuel (by omega)]
    exact congrArg (Option.map _) (listing fuel (by omega))
  · refine (perm_ext_iff_of_nodup visited.ordered.nodup closed.nodup).mpr fun id => ?_
    exact ⟨inside id, visited.listed id⟩
  · intro before id after split _ found edge target points
    have listed : id ∈ world.mapItems map := inside id (by
      rw [show done = before ++ id :: after from split]
      exact mem_append_right _ mem_cons_self)
    refine visited.ordered.behind before id after split target ?_
    rw [targets_stored listed found]
    cases edge <;> simp [Item.pointers, ← points, Item.edge]

def linkedWorld : World :=
  { heap := fun id =>
      match id with
      | 0 => some { newItem 0 0 .group with memberItems := [1, 2] }
      | 1 => some { newItem 1 0 .network with parent := some 0, linkedItems := [2, 2] }
      | 2 => some { newItem 2 0 .link with parent := some 0, srcPtr := some 1, dstPtr := some 1 }
      | _ => none
    itemList := [2, 1, 0], nextPtr := 3, nextId := fun _ => 1, commands := [], loading := [], now := .zero }

theorem linkedWorld_points {id target : Nat} (points : linkedWorld.Points id target) :
    target < id ∧ target ∈ [2, 1, 0] := by
  obtain ⟨_, found, member⟩ := points
  match id with
  | 0 =>
    cases found
    simp [Item.pointers, newItem] at member
  | 1 =>
    cases found
    simp [Item.pointers, newItem] at member
    subst member
    decide
  | 2 =>
    cases found
    simp [Item.pointers] at member
    rcases member with rfl | rfl <;> decide
  | _ + 3 => cases found

theorem dumpMap_linkedWorld : ∃ bound dump, (∀ fuel ≥ bound, dumpMap (fun _ => []) linkedWorld 0 [] fuel = some dump) ∧
      dump.dumped.Perm [2, 1, 0] := by
  have closed : Closed linkedWorld 0 := by
    refine ⟨by decide +kernel, fun id _ target points => ?_⟩
    exact (linkedWorld_points points).2
  have descends : ∀ {id target}, Relation.TransGen linkedWorld.Points id target → target < id := by
    intro id _ path
    induction path with
    | single first => exact (linkedWorld_points first).1
    | tail _ last ih => exact (linkedWorld_points last).1.trans ih
  obtain ⟨bound, dump, done, written, _⟩ := dumpMap_ordered (fun _ => []) [] closed
    fun id _ cycle => Nat.lt_irrefl id (descends cycle)
  exact ⟨bound, dump, done, written⟩

end

end Tnm.Map
