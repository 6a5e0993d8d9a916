import TkinedRemix.Map.ItemRuns

/-!
The events, bindings and messages of items and maps (`tnmMapEvent.c`). The deletion of an item leaves its lists
as they are.
-/

namespace Tnm.Map

open Lib List Option Function

inductive Kind where
  | event
  | binding
  | message
deriving DecidableEq

inductive Owner where
  | item (id : Nat)
  | map (map : Nat)
deriving DecidableEq

/-- `TnmMapEvent`, `TnmMapBind` and `TnmMapMsg`. -/
structure Attachment where
  kind : Kind
  itemPtr : Option Nat
  mapPtr : Nat

def Attachment.owner (attachment : Attachment) : Owner :=
  match attachment.itemPtr with
  | some id => .item id
  | none => .map attachment.mapPtr

/-- The items, the objects that are attached to them or to their maps, and the lists of these objects. -/
structure Scene where
  world : World
  objects : Nat → Option Attachment
  lists : Owner × Kind → List Nat
  nextObject : Nat

section

/-- The loop that takes an object out of a list reads all the objects before it. -/
def unlink (objects : Nat → Option Attachment) (object : Nat) : List Nat → Option (List Nat)
  | [] => some []
  | first :: rest =>
    if first = object then some rest
    else (objects first).bind fun _ => (unlink objects object rest).map (first :: ·)

def Scene.unlinkFrom (scene : Scene) (key : Owner × Kind) (object : Nat) : Option Scene :=
  (unlink scene.objects object (scene.lists key)).map fun rest =>
    { scene with lists := update scene.lists key rest }

def Scene.unlinkItem (scene : Scene) (kind : Kind) (object : Nat) : Option Nat → Option Scene
  | none => some scene
  | some id => (scene.world.heap id).bind fun _ => scene.unlinkFrom (.item id, kind) object

def Scene.freeObject (scene : Scene) (object : Nat) : Scene :=
  { scene with objects := update scene.objects object none }

def deleteProc (kind : Kind) (scene : Scene) (object : Nat) : Option Scene :=
  (scene.objects object).bind fun attachment =>
    (scene.unlinkItem kind object attachment.itemPtr).bind fun scene =>
      (scene.unlinkFrom (.map attachment.mapPtr, kind) object).map fun scene => scene.freeObject object

def eventDeleteProc : Scene → Nat → Option Scene := deleteProc .event

def bindDeleteProc : Scene → Nat → Option Scene := deleteProc .binding

def msgDeleteProc : Scene → Nat → Option Scene := deleteProc .message

def attach (kind : Kind) (scene : Scene) (map : Nat) (itemPtr : Option Nat) : Scene :=
  let attachment : Attachment := { kind, itemPtr, mapPtr := map }
  { scene with
    objects := update scene.objects scene.nextObject (some attachment)
    lists := update scene.lists (attachment.owner, kind)
      (scene.nextObject :: scene.lists (attachment.owner, kind))
    nextObject := scene.nextObject + 1 }

/-- `TnmMapCreateUserEvent`, with the part of `TnmMapRaiseEvent` that queues the event. -/
def createUserEvent : Scene → Nat → Option Nat → Scene := attach .event

def userBinding : Scene → Nat → Option Nat → Scene := attach .binding

def createMsg : Scene → Nat → Option Nat → Scene := attach .message

end

section

variable (getInt : String → Option Int)

inductive SceneAction where
  | item (action : Action)
  | raise (owner : Owner)
  | bind (owner : Owner)
  | msg (owner : Owner)
  | destroy (object : Nat)

def ownerCommand (create : Scene → Nat → Option Nat → Scene) (scene : Scene) : Owner → Option Scene
  | .map map => some (create scene map none)
  | .item id =>
    if id ∈ scene.world.itemList then (scene.world.heap id).map fun item => create scene item.mapPtr (some id)
    else some scene

def sceneAction (scene : Scene) : SceneAction → Option Scene
  | .item action => (itemAction getInt scene.world action).map fun world => { scene with world }
  | .raise owner => ownerCommand createUserEvent scene owner
  | .bind owner => ownerCommand userBinding scene owner
  | .msg owner => ownerCommand createMsg scene owner
  | .destroy object =>
    match scene.objects object with
    | none => some scene
    | some attachment =>
      match attachment.kind with
      | .event => eventDeleteProc scene object
      | .binding => bindDeleteProc scene object
      | .message => msgDeleteProc scene object

def sceneStep (state : Option Scene) (action : SceneAction) : Option Scene :=
  state.bind fun scene => sceneAction getInt scene action

def Scene.start (commands : List String) (now : TclTime) : Scene :=
  { world := .start commands now, objects := fun _ => none, lists := fun _ => [], nextObject := 0 }

def Scene.bare (scene : Scene) (id : Nat) : Bool :=
  id ∉ scene.world.itemList ||
    (doomed scene.world 3 id).all fun item =>
      [Kind.event, .binding, .message].all fun kind => (scene.lists (.item item, kind)).isEmpty

def Detached (state : Option Scene) : SceneAction → Prop
  | .item (.destroy id) => (state.all fun scene => scene.bare id) = true
  | _ => True

def Whole (state : Option Scene) : SceneAction → Prop
  | .item action => Unbroken getInt (state.map Scene.world) action
  | _ => True

/-- The items that the attached objects refer to still exist. -/
def Scene.Attached (scene : Scene) : Prop :=
  ∀ object attachment id, scene.objects object = some attachment → attachment.itemPtr = some id →
    ∃ item, scene.world.heap id = some item

end

section

variable {world after : World} (getInt : String → Option Int)

theorem createItem_keeps (numbered : world.Numbered) {map : Nat} {type : ItemType} {arguments : List (String × String)}
    {result : Option Nat} (done : createItem getInt world map type arguments = some (after, result)) :
    after.Numbered ∧ ∀ id item, world.heap id = some item → ∃ kept, after.heap id = some kept := by
  obtain ⟨⟨middle, _⟩, configured, done⟩ := bind_eq_some_iff.mp done
  have allocated := allocate_numbered numbered map type
  have alike : Alike (world.allocate map type) middle := configure_alike getInt allocated configured
  have numberedMiddle := alike.numbered allocated
  have old : ∀ id item, world.heap id = some item → id ≠ world.nextPtr ∧ ∃ kept, middle.heap id = some kept := by
    intro id item stored
    have differs : id ≠ world.nextPtr := Nat.ne_of_lt (numbered id item stored).2
    refine ⟨differs, (alike.same.live id).mpr ⟨item, ?_⟩⟩
    rw [allocate_heap_other map type differs, stored]
  have freed : (middle.free world.nextPtr).Numbered ∧
      ∀ id item, world.heap id = some item → ∃ kept, (middle.free world.nextPtr).heap id = some kept := by
    refine ⟨?_, ?_⟩
    · intro id item found
      rw [free_heap] at found
      split at found
      · cases found
      · exact numberedMiddle id item found
    · intro id item stored
      rw [free_heap, if_neg (old id item stored).1]
      exact (old id item stored).2
  dsimp only at done
  split at done
  · cases done
    exact freed
  obtain ⟨record, stored, done⟩ := map_eq_some_iff.mp done
  split at done
  · cases done
    exact freed
  cases done
  obtain ⟨shape, _⟩ := stamp_unlinked middle.now record
    (getHandle middle.names type (middle.names.length + 1) (middle.nextId type))
  have own := (shape_eq shape).1.trans (numberedMiddle _ record stored).1
  have same := set_same stored shape
  have written := put_eq_set middle own
  refine ⟨?_, ?_⟩
  · intro id item found
    rw [written] at found
    exact same.numbered rfl numberedMiddle id item found
  · intro id item storedBefore
    rw [written]
    exact (same.live id).mpr (old id item storedBefore).2

theorem itemAction_keeps (numbered : world.Numbered) {action : Action}
    (done : itemAction getInt world action = some after) : after.Numbered ∧ ∀ id item, world.heap id = some item →
      (∀ lost, action = .destroy lost → lost ∈ world.itemList → id ∉ doomed world 3 lost) →
        ∃ kept, after.heap id = some kept := by
  cases action with
  | create =>
    obtain ⟨⟨_, _⟩, created, rfl⟩ := map_eq_some_iff.mp done
    obtain ⟨numberedAfter, kept⟩ := createItem_keeps getInt numbered created
    exact ⟨numberedAfter, fun id item stored _ => kept id item stored⟩
  | configure =>
    rw [itemAction] at done
    split at done
    · obtain ⟨⟨_, _⟩, configured, rfl⟩ := map_eq_some_iff.mp done
      have alike := configure_alike getInt numbered configured
      exact ⟨alike.numbered numbered, fun other item stored _ => (alike.same.live other).mpr ⟨item, stored⟩⟩
    · cases done
      exact ⟨numbered, fun _ item stored _ => ⟨item, stored⟩⟩
  | destroy lost =>
    rw [itemAction] at done
    split at done
    next listed =>
      have pruned := itemDeleteProc_pruned 3 world lost after done
      refine ⟨?_, fun id item stored outside => pruned.kept id item stored (outside lost rfl listed)⟩
      intro id item found
      obtain ⟨old, stored, trims⟩ := pruned.survivors id item found
      rw [pruned.rest, (kind_eq trims.kind).1]
      exact numbered id old stored
    next =>
      cases done
      exact ⟨numbered, fun _ item stored _ => ⟨item, stored⟩⟩
  | load | loaded | tick =>
    cases done
    exact ⟨numbered, fun _ item stored _ => ⟨item, stored⟩⟩

end

section

structure Kept (scene : Scene) : Prop where
  numbered : scene.world.Numbered
  fresh : ∀ object attachment, scene.objects object = some attachment → object < scene.nextObject
  nodup : ∀ key, (scene.lists key).Nodup
  listed : ∀ owner kind object, object ∈ scene.lists (owner, kind) ↔
    ∃ attachment, scene.objects object = some attachment ∧ attachment.kind = kind ∧ attachment.owner = owner
  attached : scene.Attached

variable {scene after : Scene} (getInt : String → Option Int) {object : Nat}

theorem unlink_live {objects : Nat → Option Attachment} {list : List Nat}
    (live : ∀ other ∈ list, ∃ attachment, objects other = some attachment) :
    unlink objects object list = some (list.erase object) := by
  induction list with
  | nil => rfl
  | cons first _ ih =>
    rw [unlink, erase_cons]
    by_cases same : first = object
    · rw [if_pos same, if_pos (beq_iff_eq.mpr same)]
    · obtain ⟨_, stored⟩ := live first mem_cons_self
      rw [if_neg same, if_neg (by simpa using same), stored, bind_some,
        ih fun other member => live other (mem_cons_of_mem _ member), map_some]

theorem unlinkFrom_eq (live : ∀ key, ∀ object ∈ scene.lists key, ∃ attachment, scene.objects object = some attachment)
    (key : Owner × Kind) (object : Nat) : scene.unlinkFrom key object =
      some { scene with lists := update scene.lists key ((scene.lists key).erase object) } := by
  rw [Scene.unlinkFrom, unlink_live (live key), map_some]

theorem Kept.live (kept : Kept scene) (key : Owner × Kind) :
    ∀ object ∈ scene.lists key, ∃ attachment, scene.objects object = some attachment := by
  intro object member
  obtain ⟨attachment, stored, _⟩ := (kept.listed key.1 key.2 object).mp member
  exact ⟨attachment, stored⟩

variable {attachment : Attachment}

section

variable (kept : Kept scene)
include kept

section

variable (stored : scene.objects object = some attachment)
include stored

theorem Kept.erase_other {owner : Owner} {kind : Kind} (other : attachment.owner ≠ owner ∨ attachment.kind ≠ kind) :
    (scene.lists (owner, kind)).erase object = scene.lists (owner, kind) := by
  refine erase_of_not_mem fun member => ?_
  obtain ⟨_, again, sameKind, sameOwner⟩ := (kept.listed owner kind object).mp member
  cases stored.symm.trans again
  rcases other with differs | differs
  · exact differs sameOwner
  · exact differs sameKind

theorem Kept.unlinked : update scene.lists (attachment.owner, attachment.kind)
        ((scene.lists (attachment.owner, attachment.kind)).erase object) =
      fun key => (scene.lists key).erase object := by
  funext key
  by_cases same : key = (attachment.owner, attachment.kind)
  · rw [same, update_self]
  · rw [update_of_ne same, kept.erase_other stored]
    by_contra both
    rw [not_or, not_not, not_not] at both
    exact same (Prod.ext both.1.symm both.2.symm)

theorem deleteProc_eq : deleteProc attachment.kind scene object =
      some (Scene.freeObject { scene with lists := fun key => (scene.lists key).erase object } object) := by
  have unlinked := kept.unlinked stored
  rw [deleteProc, stored, bind_some]
  rcases item : attachment.itemPtr with _ | id
  · have owner : attachment.owner = .map attachment.mapPtr := by rw [Attachment.owner, item]
    rw [owner] at unlinked
    rw [Scene.unlinkItem, bind_some, unlinkFrom_eq kept.live, map_some, unlinked]
  · have owner : attachment.owner = .item id := by rw [Attachment.owner, item]
    rw [owner] at unlinked
    obtain ⟨_, live⟩ := kept.attached object attachment id stored item
    have others : ∀ key, ∀ other ∈ (scene.lists key).erase object, ∃ found, scene.objects other = some found :=
      fun key other member => kept.live key other (mem_of_mem_erase member)
    rw [Scene.unlinkItem, live, bind_some, unlinkFrom_eq kept.live, bind_some, unlinked]
    -- the object is not in the list of the map any more
    rw [unlinkFrom_eq others]
    refine congrArg (fun lists => some (Scene.freeObject { scene with lists := lists } object)) ?_
    funext key
    by_cases same : key = (.map attachment.mapPtr, attachment.kind)
    · rw [same, update_self]
      have unowned : attachment.owner ≠ .map attachment.mapPtr := by
        rw [owner]
        exact fun equal => nomatch equal
      dsimp only
      rw [kept.erase_other stored (.inl unowned), kept.erase_other stored (.inl unowned)]
    · rw [update_of_ne same]

end

theorem Kept.destroyed (object : Nat) :
    Kept (Scene.freeObject { scene with lists := fun key => (scene.lists key).erase object } object) := by
  have objects : ∀ other attachment,
      update scene.objects object none other = some attachment ↔
        other ≠ object ∧ scene.objects other = some attachment := by
    intro other attachment
    by_cases same : other = object <;> simp [same]
  refine ⟨kept.numbered, ?_, fun key => (kept.nodup key).erase object, ?_, ?_⟩
  · intro other attachment stored
    exact kept.fresh other attachment ((objects other attachment).mp stored).2
  · intro _ _ other
    refine ((kept.nodup _).mem_erase_iff).trans ?_
    rw [kept.listed]
    constructor
    · rintro ⟨differs, attachment, stored, rest⟩
      exact ⟨attachment, (objects other attachment).mpr ⟨differs, stored⟩, rest⟩
    · rintro ⟨attachment, stored, rest⟩
      obtain ⟨differs, stored⟩ := (objects other attachment).mp stored
      exact ⟨differs, attachment, stored, rest⟩
  · intro other attachment id stored item
    exact kept.attached other attachment id ((objects other attachment).mp stored).2 item

theorem Kept.created (kind : Kind) (map : Nat) {itemPtr : Option Nat}
    (live : ∀ id, itemPtr = some id → ∃ item, scene.world.heap id = some item) :
    Kept (attach kind scene map itemPtr) := by
  let attachment : Attachment := { kind, itemPtr, mapPtr := map }
  have objects : ∀ other found, update scene.objects scene.nextObject (some attachment) other = some found ↔
      other = scene.nextObject ∧ found = attachment ∨ scene.objects other = some found := by
    intro other found
    by_cases same : other = scene.nextObject
    · subst same
      have unused : scene.objects scene.nextObject ≠ some found := fun stored =>
        Nat.lt_irrefl _ (kept.fresh _ found stored)
      simp [unused, eq_comm]
    · simp [same]
  have unlisted : ∀ key, scene.nextObject ∉ scene.lists key := by
    intro key member
    obtain ⟨found, stored⟩ := kept.live key _ member
    exact Nat.lt_irrefl _ (kept.fresh _ found stored)
  have members : ∀ key other, other ∈ update scene.lists (attachment.owner, kind)
        (scene.nextObject :: scene.lists (attachment.owner, kind)) key ↔
      key = (attachment.owner, kind) ∧ other = scene.nextObject ∨ other ∈ scene.lists key := by
    intro key other
    rw [update_apply]
    split
    next same => simp [same]
    next same => simp [same]
  refine ⟨kept.numbered, ?_, ?_, ?_, ?_⟩
  · intro other found stored
    rcases (objects other found).mp stored with ⟨rfl, _⟩ | old
    · exact Nat.lt_succ_self _
    · exact Nat.lt_succ_of_lt (kept.fresh other found old)
  · intro key
    change (update scene.lists (attachment.owner, kind) _ key).Nodup
    by_cases same : key = (attachment.owner, kind)
    · rw [same, update_self]
      exact nodup_cons.mpr ⟨unlisted _, kept.nodup _⟩
    · rw [update_of_ne same]
      exact kept.nodup key
  · intro owner sort other
    change other ∈ update scene.lists (attachment.owner, kind) _ (owner, sort) ↔ ∃ found,
      update scene.objects scene.nextObject (some attachment) other = some found ∧ _
    rw [members, kept.listed]
    simp only [objects]
    constructor
    · rintro (⟨same, rfl⟩ | ⟨found, stored, rest⟩)
      · cases same
        exact ⟨attachment, .inl ⟨rfl, rfl⟩, rfl, rfl⟩
      · exact ⟨found, .inr stored, rest⟩
    · rintro ⟨found, ⟨rfl, rfl⟩ | old, rest⟩
      · exact .inl ⟨Prod.ext rest.2.symm rest.1.symm, rfl⟩
      · exact .inr ⟨found, old, rest⟩
  · intro other found id stored item
    rcases (objects other found).mp stored with ⟨_, rfl⟩ | old
    · exact live id item
    · exact kept.attached other found id old item

theorem ownerCommand_kept {kind : Kind} {owner : Owner} (done : ownerCommand (attach kind) scene owner = some after) :
    Kept after := by
  cases owner with
  | map map =>
    cases done
    exact kept.created kind map fun id none => nomatch none
  | item =>
    rw [ownerCommand] at done
    split at done
    · obtain ⟨item, stored, rfl⟩ := map_eq_some_iff.mp done
      refine kept.created kind item.mapPtr ?_
      rintro _ ⟨⟩
      exact ⟨item, stored⟩
    · cases done
      exact kept

theorem sceneAction_destroy (object : Nat) :
    ∃ after, sceneAction getInt scene (.destroy object) = some after ∧ Kept after ∧ after.world = scene.world := by
  rw [sceneAction]
  rcases stored : scene.objects object with _ | attachment
  · exact ⟨scene, rfl, kept, rfl⟩
  · have deleted := deleteProc_eq kept stored
    refine ⟨_, ?_, kept.destroyed object, rfl⟩
    dsimp only
    rcases kind : attachment.kind with _ | _ | _
    all_goals
      rw [kind] at deleted
      exact deleted

theorem Kept.unattached {lost : Nat} (bare : scene.bare lost = true) (listed : lost ∈ scene.world.itemList) {id : Nat}
    (stored : scene.objects object = some attachment) (item : attachment.itemPtr = some id) :
    id ∉ doomed scene.world 3 lost := by
  intro member
  have owner : attachment.owner = .item id := by rw [Attachment.owner, item]
  have entry := (kept.listed (.item id) attachment.kind object).mpr ⟨attachment, stored, rfl, owner⟩
  have empty := bare
  rw [Scene.bare, Bool.or_eq_true, decide_eq_true_eq] at empty
  rcases empty with unlisted | empty
  · exact unlisted listed
  · have kinds := List.all_eq_true.mp (List.all_eq_true.mp empty id member) attachment.kind
      (by cases attachment.kind <;> simp)
    rw [List.isEmpty_iff.mp kinds] at entry
    cases entry

theorem sceneAction_kept {action : SceneAction} (detached : Detached (some scene) action)
    (done : sceneAction getInt scene action = some after) : Kept after := by
  cases action with
  | item =>
    obtain ⟨_, moved, rfl⟩ := map_eq_some_iff.mp done
    obtain ⟨numbered, survives⟩ := itemAction_keeps getInt kept.numbered moved
    refine ⟨numbered, kept.fresh, kept.nodup, kept.listed, ?_⟩
    intro object attachment id stored item
    obtain ⟨record, live⟩ := kept.attached object attachment id stored item
    refine survives id record live ?_
    rintro _ rfl listed
    exact kept.unattached detached listed stored item
  | raise | bind | msg => exact ownerCommand_kept kept done
  | destroy object =>
    obtain ⟨_, deleted, keptAfter, _⟩ := sceneAction_destroy getInt kept object
    cases deleted.symm.trans done
    exact keptAfter

end

theorem ownerCommand_defined (sound : Sound [] [] scene.world) (kind : Kind) (owner : Owner) :
    ∃ after, ownerCommand (attach kind) scene owner = some after ∧ after.world = scene.world := by
  cases owner with
  | map => exact ⟨_, rfl, rfl⟩
  | item id =>
    rw [ownerCommand]
    split
    next listed =>
      obtain ⟨⟨item, stored⟩, _⟩ := (sound.listed id).mp listed
      exact ⟨attach kind scene item.mapPtr (some id), by rw [stored, map_some], rfl⟩
    next => exact ⟨scene, rfl, rfl⟩

theorem sceneAction_defined (kept : Kept scene) (sound : Sound [] [] scene.world) {action : SceneAction}
    (whole : Whole getInt (some scene) action) :
    ∃ after, sceneAction getInt scene action = some after ∧ Sound [] [] after.world := by
  cases action with
  | item =>
    obtain ⟨world, done, soundAfter⟩ := itemAction_sound getInt sound whole
    exact ⟨{ scene with world }, by rw [sceneAction, done]; rfl, soundAfter⟩
  | raise owner | bind owner | msg owner =>
    exact (ownerCommand_defined sound _ owner).imp fun _ ⟨done, same⟩ => ⟨done, same ▸ sound⟩
  | destroy object =>
    obtain ⟨after, done, _, same⟩ := sceneAction_destroy getInt kept object
    exact ⟨after, done, same ▸ sound⟩

theorem start_kept (commands : List String) (now : TclTime) : Kept (.start commands now) := by
  refine ⟨(start_sound commands now).ids, ?_, fun _ => nodup_nil, ?_, ?_⟩
  · intro object attachment stored
    cases stored
  · simp [Scene.start]
  · intro _ _ _ stored
    cases stored

def Always (holds : Scene → Prop) (state : Option Scene) : Prop := ∀ scene, state = some scene → holds scene

def Defined (state : Option Scene) : Prop := ∃ scene, state = some scene ∧ Kept scene ∧ Sound [] [] scene.world

/-- Every attached object refers to an item that still exists, and no run meets undefined behaviour. -/
theorem attachments_live (commands : List String) (now : TclTime) {actions : List SceneAction}
    (detached : Meets (sceneStep getInt) Detached (some (.start commands now)) actions) :
    (∀ scene, run (sceneStep getInt) (some (.start commands now)) actions = some scene → scene.Attached) ∧
      (Meets (sceneStep getInt) (Whole getInt) (some (.start commands now)) actions →
        ∃ scene, run (sceneStep getInt) (some (.start commands now)) actions = some scene) := by
  constructor
  · have always : Always Kept (run (sceneStep getInt) (some (.start commands now)) actions) := by
      refine run_invariant ?_ ?_ detached
      · intro _ _ condition before after done
        obtain ⟨scene, rfl, done⟩ := bind_eq_some_iff.mp done
        exact sceneAction_kept getInt (before scene rfl) condition done
      · rintro scene ⟨⟩
        exact start_kept commands now
    intro scene reached
    exact (always scene reached).attached
  · intro whole
    have defined : Defined (run (sceneStep getInt) (some (.start commands now)) actions) := by
      refine run_invariant ?_ ⟨_, rfl, start_kept commands now, start_sound commands now⟩ (detached.and whole)
      rintro _ _ ⟨quiet, fine⟩ ⟨scene, rfl, kept, sound⟩
      obtain ⟨after, done, soundAfter⟩ := sceneAction_defined getInt kept sound fine
      exact ⟨after, done, sceneAction_kept getInt kept quiet done, soundAfter⟩
    obtain ⟨scene, reached, _⟩ := defined
    exact ⟨scene, reached⟩

def eventFirst : List SceneAction :=
  [.item (.create 0 .node []), .raise (.item 0), .msg (.map 0), .destroy 0, .item (.destroy 0)]

theorem eventFirst_attached : Meets (sceneStep noNumber) Detached (some (.start [] midnight)) eventFirst ∧
      ∃ scene, run (sceneStep noNumber) (some (.start [] midnight)) eventFirst = some scene ∧ scene.Attached := by
  have detached : Meets (sceneStep noNumber) Detached (some (.start [] midnight)) eventFirst := by
    refine ⟨trivial, trivial, trivial, trivial, ?_, trivial⟩
    exact show (Option.all _ _ : Bool) = true by decide +kernel
  have whole : Meets (sceneStep noNumber) (Whole noNumber) (some (.start [] midnight)) eventFirst := by
    refine ⟨?_, trivial, trivial, trivial, trivial, trivial⟩
    exact show (Option.all _ _ : Bool) = true by decide +kernel
  obtain ⟨attached, defined⟩ := attachments_live noNumber [] midnight detached
  obtain ⟨scene, reached⟩ := defined whole
  exact ⟨detached, scene, reached, attached scene reached⟩

def nodeFirst : List SceneAction := [.item (.create 0 .node []), .raise (.item 0), .item (.destroy 0)]

/-- The event still refers to the freed node, and can not even be deleted. -/
theorem nodeFirst_dangling :
    ∃ scene, run (sceneStep noNumber) (some (.start [] midnight)) nodeFirst = some scene ∧ ¬scene.Attached ∧
      sceneAction noNumber scene (.destroy 0) = none := by
  have reached : ((run (sceneStep noNumber) (some (.start [] midnight)) nodeFirst).map fun scene =>
      ((scene.world.heap 0).isNone, (scene.objects 0).map Attachment.itemPtr,
        (sceneAction noNumber scene (.destroy 0)).isNone)) = some (true, some (some 0), true) := by decide +kernel
  obtain ⟨scene, done, facts⟩ := map_eq_some_iff.mp reached
  obtain ⟨freed, facts⟩ := Prod.mk.inj facts
  obtain ⟨event, undefined⟩ := Prod.mk.inj facts
  refine ⟨scene, done, ?_, isNone_iff_eq_none.mp undefined⟩
  intro attached
  obtain ⟨attachment, stored, item⟩ := map_eq_some_iff.mp event
  obtain ⟨_, live⟩ := attached 0 attachment 0 stored item
  rw [live] at freed
  cases freed

end

end Tnm.Map
