import TkinedRemix.Mib.NodeLists
import TkinedRemix.Mib.OidValue

/-!
The object identifier that a value gives to its node. Of the entries without a label the one read first
decides, and the names in front of it become nodes of their own.
-/

namespace Tnm.Mib

open Lib SiblingTree List Option

theorem atoi_subidText {subid : Nat} (bound : subid < 2 ^ 32) : atoi (subidText subid) = subid :=
  (@foldl_takeDigit false (subidText subid) 0).trans (digitsNumber_subidText bound)

/-- Every number has a name. -/
inductive Named : List Component → Prop where
  | nil : Named []
  | cons (name : List Char) (subid : Nat) {rest : List Component} : Named rest → Named (.named name subid :: rest)

theorem Named.left {front back : List Component} (named : Named (front ++ back)) : Named front := by
  induction front with
  | nil => exact .nil
  | cons _ _ ih =>
    cases named with
    | cons name subid behind => exact .cons name subid (ih behind)

def Reader.take (reader : Reader) : Component → Reader
  | .number subid =>
    match reader.subidList with
    | [] => reader
    | np :: others =>
      if np.subid ≠ noSubid then { reader with subidList := ⟨reader.name, none, subid⟩ :: np :: others }
      else reader.setSubid subid
  | .named name subid => (doLabel reader name).setSubid subid

def OidValue.reader (value : OidValue) : Reader :=
  ⟨value.parent, true, [⟨value.parent, none, value.parentNumber.getD noSubid⟩]⟩

def OidValue.numbers (value : OidValue) : List Nat := value.components.map Component.subid

def OidValue.names (value : OidValue) : List (List Char) := value.components.filterMap Component.name

theorem Reader.take_filled {reader : Reader} (filled : reader.subidList ≠ []) (component : Component) :
    (reader.take component).subidList ≠ [] := by
  cases component with
  | number =>
    rw [take]
    split
    next empty => exact absurd empty filled
    next np others shape =>
      split
      · simp
      · simp [setSubid, shape]
  | named => simp [take, doLabel, setSubid]

theorem foldl_take_filled (components : List Component) {reader : Reader} (filled : reader.subidList ≠ []) :
    (components.foldl Reader.take reader).subidList ≠ [] := by
  induction components generalizing reader with
  | nil => exact filled
  | cons component _ ih => exact ih (Reader.take_filled filled component)

section

variable (tnmMibGetName : List Char → Option (List Char))

theorem readComponents_component {reader : Reader} (filled : reader.subidList ≠ []) (component : Component)
    (bound : component.subid < 2 ^ 32) (rest : List Token) :
    readComponents tnmMibGetName (component.tokens ++ rest) reader =
      readComponents tnmMibGetName rest (reader.take component) := by
  cases component with
  | number subid =>
    obtain ⟨_, _, shape⟩ := exists_cons_of_ne_nil filled
    simp only [Component.tokens, singleton_append, readComponents, Reader.take, shape,
      atoi_subidText (show subid < 2 ^ 32 from bound)]
    split <;> rfl
  | named name subid =>
    have labelled : (doLabel reader name).subidList ≠ [] := by simp [doLabel]
    simp only [Component.tokens, subidTokens, cons_append, nil_append, readComponents, labelled, if_false,
      Reader.take, atoi_subidText (show subid < 2 ^ 32 from bound)]

theorem readComponents_tokens (components : List Component) {reader : Reader} (filled : reader.subidList ≠ [])
    (bounds : ∀ component ∈ components, component.subid < 2 ^ 32) :
    readComponents tnmMibGetName (components.flatMap Component.tokens ++ [.rightBracket]) reader =
      some (components.foldl Reader.take reader).subidList := by
  induction components generalizing reader with
  | nil => simp [readComponents]
  | cons component _ ih =>
    have ⟨bound, restBounds⟩ := forall_mem_cons.mp bounds
    rw [flatMap_cons, append_assoc, readComponents_component tnmMibGetName filled component bound,
      ih (Reader.take_filled filled component) restBounds, foldl_cons]

theorem readSubID_tokens {value : OidValue} (parentBound : ∀ number ∈ value.parentNumber, number < 2 ^ 32)
    (bounds : ∀ component ∈ value.components, component.subid < 2 ^ 32) :
    readSubID tnmMibGetName value.tokens = some (value.components.foldl Reader.take value.reader).subidList := by
  have filled : value.reader.subidList ≠ [] := by simp [OidValue.reader]
  rw [← readComponents_tokens tnmMibGetName value.components filled bounds, OidValue.tokens, readSubID,
    OidValue.reader]
  cases numbered : value.parentNumber with
  | none => rfl
  | some number =>
    simp [subidTokens, readComponents, doLabel, Reader.setSubid, atoi_subidText (parentBound number numbered)]

end

def entriesOf : List Char → List Component → List SubidEntry
  | _, [] => []
  | name, .number subid :: rest => ⟨name, none, subid⟩ :: entriesOf name rest
  | name, .named label subid :: rest => ⟨name, some label, subid⟩ :: entriesOf label rest

def OidValue.entries (value : OidValue) : List SubidEntry :=
  (if value.parentNumber.getD noSubid = noSubid then [] else [⟨value.parent, none, value.parentNumber.getD noSubid⟩]) ++
    entriesOf value.parent value.components

theorem entriesOf_subid (name : List Char) (components : List Component) :
    (entriesOf name components).map SubidEntry.subid = components.map Component.subid := by
  induction components generalizing name with
  | nil => rfl
  | cons component _ ih => cases component <;> simp [entriesOf, ih, Component.subid]

theorem foldl_take (components : List Component) (name : List Char) (np : SubidEntry) (others : List SubidEntry)
    (set : np.subid ≠ noSubid) (unmarked : ∀ component ∈ components, component.subid ≠ noSubid) :
    (components.foldl Reader.take ⟨name, true, np :: others⟩).subidList =
      (entriesOf name components).reverse ++ np :: others := by
  induction components generalizing name np others with
  | nil => rfl
  | cons component _ ih =>
    have ⟨here, behind⟩ := forall_mem_cons.mp unmarked
    cases component with
    | number =>
      rw [foldl_cons, Reader.take]
      simp only [set, ne_eq, not_false_eq_true, if_true]
      rw [ih name _ _ here behind]
      simp [entriesOf]
    | named label =>
      rw [foldl_cons, Reader.take, doLabel, Reader.setSubid]
      rw [ih label _ _ here behind]
      simp [entriesOf]

variable {value : OidValue}

theorem OidValue.subidList_eq (unmarked : noSubid ∉ value.numbers) :
    ∃ rest, (value.components.foldl Reader.take value.reader).subidList = value.entries.reverse ++ rest ∧
      ∀ entry ∈ rest.head?, entry.subid = noSubid := by
  have unset : ∀ component ∈ value.components, component.subid ≠ noSubid := by
    intro component member marked
    exact unmarked (marked ▸ List.mem_map_of_mem member)
  rw [reader, entries]
  by_cases none : value.parentNumber.getD noSubid = noSubid
  · rw [none, if_pos rfl]
    cases shape : value.components with
    | nil => exact ⟨[⟨value.parent, .none, noSubid⟩], rfl, by simp⟩
    | cons component rest =>
      rw [shape] at unset
      have ⟨here, behind⟩ := forall_mem_cons.mp unset
      cases component with
      | number =>
        rw [foldl_cons, Reader.take]
        simp only [ne_eq, not_true_eq_false, if_false, Reader.setSubid]
        rw [foldl_take rest _ _ _ here behind]
        simp [entriesOf]
      | named =>
        rw [foldl_cons, Reader.take, doLabel, Reader.setSubid]
        rw [foldl_take rest _ _ _ here behind]
        simp [entriesOf]
  · rw [foldl_take _ _ _ _ none unset, if_neg none]
    simp

def newNodes (moduleName : Option (List Char)) (entries : List SubidEntry) : List Parsed :=
  entries.filterMap fun entry => entry.label.map fun label => ⟨label, some entry.parentName, moduleName, entry.subid⟩

def defineNode (entries : List SubidEntry) (node : Parsed) : Parsed :=
  match entries.find? fun entry => entry.label.isNone with
  | none => node
  | some entry => { node with parentName := some entry.parentName, subid := entry.subid }

theorem addEntries_reverse (moduleName : Option (List Char)) {entries : List SubidEntry}
    (set : ∀ entry ∈ entries, entry.subid ≠ noSubid) (rest : List SubidEntry) (nodeList : List Parsed) (node : Parsed) :
    addEntries moduleName (entries.reverse ++ rest) nodeList node =
      addEntries moduleName rest (newNodes moduleName entries ++ nodeList) (defineNode entries node) := by
  induction entries generalizing rest with
  | nil => rfl
  | cons entry behind ih =>
    have ⟨here, later⟩ := forall_mem_cons.mp set
    rw [reverse_cons, append_assoc, singleton_append, ih later, addEntries, if_neg here]
    cases label : entry.label with
    | none =>
      simp only [newNodes, defineNode, filterMap_cons, label, find?_cons]
      cases List.find? (fun entry => entry.label.isNone) behind <;> rfl
    | some =>
      simp only [newNodes, defineNode, filterMap_cons, label, map_some, find?_cons, isNone_some,
        cons_append]

theorem parseNodeList_tokens (tnmMibGetName : List Char → Option (List Char)) (moduleName : Option (List Char))
    (parentBound : ∀ number ∈ value.parentNumber, number < 2 ^ 32)
    (bounds : ∀ component ∈ value.components, component.subid < 2 ^ 32) (nodeList : List Parsed) (node : Parsed) :
    parseNodeList tnmMibGetName moduleName value.tokens nodeList node =
      some (addEntries moduleName (value.components.foldl Reader.take value.reader).subidList nodeList node) := by
  have filled := foldl_take_filled value.components (show value.reader.subidList ≠ [] by simp [OidValue.reader])
  obtain ⟨_, _, shape⟩ := exists_cons_of_ne_nil filled
  rw [parseNodeList, readSubID_tokens tnmMibGetName parentBound bounds, shape]

theorem addEntries_entries (moduleName : Option (List Char)) (unmarked : noSubid ∉ value.numbers)
    (nodeList : List Parsed) (node : Parsed) :
    addEntries moduleName (value.components.foldl Reader.take value.reader).subidList nodeList node =
      (newNodes moduleName value.entries ++ nodeList, defineNode value.entries node) := by
  have set : ∀ entry ∈ value.entries, entry.subid ≠ noSubid := by
    intro entry member
    rw [OidValue.entries, mem_append] at member
    rcases member with own | later
    · split at own
      · cases own
      next numbered =>
        rw [mem_singleton.mp own]
        exact numbered
    · intro marked
      apply unmarked
      rw [OidValue.numbers, ← entriesOf_subid value.parent, ← marked]
      exact List.mem_map_of_mem later
  obtain ⟨rest, shape, ends⟩ := value.subidList_eq unmarked
  rw [shape, addEntries_reverse moduleName set]
  cases rest with
  | nil => rfl
  | cons entry => rw [addEntries, if_pos (ends entry (by simp))]

/-- A list has been added, and the tree has been built. -/
structure Building (memory : Memory) (parsed : List Parsed) (after : Memory) (tree : AddressTree) : Prop where
  loaded : Loaded memory
  ready : Ready memory parsed
  adds : ∃ flag bound, ∀ fuel ≥ bound, addNodes fuel parsed memory = some (after, flag)
  built : after.tree = some tree

def LabelAt (after : Memory) (tree : AddressTree) (label : List Char) (path : Oid) : Prop :=
  ∃ address, (path, address) ∈ tree.paths ∧ (after.node address).label = label

def OnlyAt (after : Memory) (tree : AddressTree) (label : List Char) (path : Oid) : Prop :=
  ∀ other, LabelAt after tree label other ↔ other = path

/-- Of the nodes of the list and of the tree, exactly those at one place have this label. -/
def Unambiguous (memory : Memory) (parsed : List Parsed) (after : Memory) (tree : AddressTree)
    (label : List Char) : Prop :=
  ∀ one other, NewNode memory parsed one ∨ one ∈ tree.values → NewNode memory parsed other ∨ other ∈ tree.values →
    (after.node one).label = label →
      ((after.node other).label = label ↔
        (after.node other).parentName = (after.node one).parentName ∧ after.subid other = after.subid one)

section

variable {memory after : Memory} {parsed : List Parsed} {before tree : AddressTree}

theorem Building.spec (building : Building memory parsed after tree) :
    ∃ before, Adds memory parsed before after tree := by
  obtain ⟨loaded, ready, ⟨_, bound, returns⟩, built⟩ := building
  obtain ⟨before, sound⟩ := loaded.sound
  obtain ⟨_, _, _, ⟨otherBound, otherReturns⟩, adds⟩ := addNodes_spec sound ready
  have same := (returns (max bound otherBound) (by omega)).symm.trans (otherReturns (max bound otherBound) (by omega))
  cases same
  have sameTree := adds.sound.grown.tree_eq.symm.trans built
  cases sameTree
  exact ⟨before, adds⟩

theorem Adds.address (adds : Adds memory parsed before after tree) {node : Parsed} (member : node ∈ parsed) :
    ∃ address, NewNode memory parsed address ∧ after.node address = node := by
  obtain ⟨index, small, rfl⟩ := mem_iff_getElem.mp member
  refine ⟨memory.size + index, ?_, adds.new index small⟩
  constructor <;> omega

variable {path : Oid}

theorem Adds.onlyAt_child (adds : Adds memory parsed before after tree) {node : Parsed} {name : List Char}
    (member : node ∈ parsed) (unambiguous : Unambiguous memory parsed after tree node.label)
    (refers : node.parentName = some name) (proper : some name ≠ unknownParent) (above : OnlyAt after tree name path) :
    OnlyAt after tree node.label (path ++ [node.subid]) := by
  obtain ⟨address, new, rfl⟩ := adds.address member
  have grown := adds.sound.grown
  intro other
  constructor
  · rintro ⟨found, isFound, labelled⟩
    obtain ⟨refersFound, subidFound⟩ :=
      (unambiguous address found (.inl new) (.inr (mem_values_iff.mpr ⟨other, isFound⟩)) rfl).mp labelled
    obtain ⟨rest, rfl⟩ := grown.held.key_eq isFound
    rcases grown.named.parent isFound with ⟨_, root⟩ | ⟨parent, isParent, below⟩
    · exact absurd (refers.symm.trans (refersFound.symm.trans root)) proper
    · have label := some.inj (refers.symm.trans (refersFound.symm.trans below))
      rw [(above rest).mp ⟨parent, isParent, label.symm⟩, subidFound]
      rfl
  · rintro rfl
    obtain ⟨parent, isParent, label⟩ := (above path).mpr rfl
    have settled := adds.settled address (mem_range'_1.mpr new) parent (mem_values_iff.mpr ⟨path, isParent⟩)
      (refers.trans (congrArg some label.symm))
    obtain ⟨rest, upper, taken, isUpper, refersUpper, isTaken⟩ := settled
    have sameRest := (above rest).mp ⟨upper, isUpper, (some.inj (refers.symm.trans refersUpper)).symm⟩
    subst sameRest
    refine ⟨taken, isTaken, ?_⟩
    apply (unambiguous address taken (.inl new) (.inr (mem_values_iff.mpr ⟨_, isTaken⟩)) rfl).mpr
    obtain ⟨_, shape⟩ := grown.held.key_eq isTaken
    exact ⟨(grown.named.child grown.sorted isUpper isTaken).trans refersUpper.symm,
      (cons.inj (append_inj' shape rfl).2).1.symm⟩

theorem Adds.unmarked_path (adds : Adds memory parsed before after tree) {label : List Char}
    (labelled : LabelAt after tree label path) : noSubid ∉ path := by
  intro marked
  obtain ⟨_, isNode, _⟩ := labelled
  obtain ⟨other, inTree, same⟩ := adds.sound.grown.held.keys_of_path isNode _ marked
  exact adds.sound.unmarked other inTree same.symm

def lastName (name : List Char) (components : List Component) : List Char :=
  (components.filterMap Component.name).getLastD name

theorem lastName_named (name label : List Char) (subid : Nat) (components : List Component) :
    lastName name (.named label subid :: components) = lastName label components := by
  exact getLastD_cons ..

variable {front : List Component}

theorem entriesOf_append (named : Named front) (name : List Char) (back : List Component) :
    entriesOf name (front ++ back) = entriesOf name front ++ entriesOf (lastName name front) back := by
  induction named generalizing name with
  | nil => rfl
  | cons _ _ _ ih => rw [cons_append, entriesOf, entriesOf, ih, lastName_named, cons_append]

theorem entriesOf_labelled (named : Named front) (name : List Char) :
    (entriesOf name front).find? (fun entry => entry.label.isNone) = none := by
  induction named generalizing name with
  | nil => rfl
  | cons label _ _ ih => simp [entriesOf, ih label]

theorem Adds.onlyAt_names (adds : Adds memory parsed before after tree) {moduleName : Option (List Char)}
    (named : Named front) {name : List Char} (above : OnlyAt after tree name path)
    (members : ∀ node ∈ newNodes moduleName (entriesOf name front), node ∈ parsed)
    (unambiguous : ∀ label ∈ front.filterMap Component.name, Unambiguous memory parsed after tree label)
    (proper : ∀ label ∈ name :: front.filterMap Component.name, some label ≠ unknownParent) :
    OnlyAt after tree (lastName name front) (path ++ front.map Component.subid) := by
  induction named generalizing name path with
  | nil =>
    rw [map_nil, append_nil]
    exact above
  | cons _ _ _ ih =>
    have ⟨member, later⟩ := forall_mem_cons.mp members
    have ⟨sole, restSole⟩ := forall_mem_cons.mp unambiguous
    have ⟨properName, properRest⟩ := forall_mem_cons.mp proper
    have child := adds.onlyAt_child member sole rfl properName above
    have found := ih child later restSole properRest
    rw [append_assoc] at found
    rw [lastName_named]
    exact found

end

/-- The node and every name of the value are below the parent at their numbers. -/
structure Registered (after : Memory) (tree : AddressTree) (path : Oid) (value : OidValue)
    (label : List Char) : Prop where
  node : LabelAt after tree label (path ++ value.numbers)
  names : ∀ front name subid back, value.components = front ++ .named name subid :: back → back ≠ [] →
    LabelAt after tree name (path ++ (front.map Component.subid ++ [subid]))

def endsNames : List Component → Bool
  | [.number _] => true
  | .named _ _ :: rest => endsNames rest
  | _ => false

/-- The number -1 does not occur, and only the last number has no name. -/
def OidValue.Plain (value : OidValue) : Prop :=
  noSubid ∉ value.numbers ∧
    if value.parentNumber.getD noSubid = noSubid then endsNames value.components = true
    else value.numbers = [value.parentNumber.getD noSubid]

theorem split_number (components : List Component) :
    Named components ∨ ∃ front subid back, components = front ++ .number subid :: back ∧ Named front := by
  induction components with
  | nil => exact .inl .nil
  | cons component rest ih =>
    cases component with
    | number subid => exact .inr ⟨[], subid, rest, rfl, .nil⟩
    | named name subid =>
      rcases ih with named | ⟨front, number, back, rfl, named⟩
      · exact .inl (named.cons name subid)
      · exact .inr ⟨.named name subid :: front, number, back, rfl, named.cons name subid⟩

theorem endsNames_named {components : List Component} (named : Named components) : endsNames components = false := by
  induction named with
  | nil => rfl
  | cons _ _ _ ih => exact ih

theorem endsNames_number {front : List Component} (named : Named front) (subid : Nat) (back : List Component) :
    endsNames (front ++ .number subid :: back) = true ↔ back = [] := by
  induction named with
  | nil => cases back <;> simp [endsNames]
  | cons _ _ _ ih => exact ih

section

variable {memory after : Memory} {parsed : List Parsed} {before tree : AddressTree} {moduleName : Option (List Char)}
  {value : OidValue} {label : List Char} {path : Oid}

theorem defineNode_parentName (node : Parsed) (plain : value.Plain) :
    (defineNode value.entries node).parentName ≠ none := by
  have found : value.entries.find? (fun entry => entry.label.isNone) ≠ none := by
    have ends := plain.2
    rw [OidValue.entries]
    by_cases unnumbered : value.parentNumber.getD noSubid = noSubid
    · rw [if_pos unnumbered] at ends ⊢
      rcases split_number value.components with named | ⟨_, _, _, shape, named⟩
      · cases (endsNames_named named).symm.trans ends
      · rw [nil_append, shape, entriesOf_append named, find?_append, entriesOf_labelled named]
        exact some_ne_none _
    · rw [if_neg unnumbered]
      exact some_ne_none _
  rw [defineNode]
  split
  next none => exact absurd none found
  next => exact some_ne_none _

theorem Adds.registered_numbered (adds : Adds memory parsed before after tree) {number : Nat}
    (numbered : value.parentNumber.getD noSubid = number) (set : number ≠ noSubid)
    (member : defineNode value.entries ⟨label, none, moduleName, 0⟩ ∈ parsed)
    (above : OnlyAt after tree value.parent path)
    (unambiguous : Unambiguous memory parsed after tree label) (proper : some value.parent ≠ unknownParent) :
    Registered after tree path value label ↔ value.numbers = [number] := by
  have defined : defineNode value.entries ⟨label, none, moduleName, 0⟩ =
      ⟨label, some value.parent, moduleName, number⟩ := by
    rw [OidValue.entries, numbered, if_neg set]
    rfl
  rw [defined] at member
  have only := adds.onlyAt_child member unambiguous rfl proper above
  constructor
  · intro registered
    exact append_cancel_left ((only _).mp registered.node)
  · intro same
    refine ⟨(only _).mpr (by rw [same]), ?_⟩
    intro _ _ _ _ shape filled
    have count := congrArg List.length same
    rw [OidValue.numbers, shape] at count
    have positive := length_pos_iff.mpr filled
    simp only [length_map, length_append, length_cons, length_nil] at count
    omega

theorem Adds.registered_unnumbered (adds : Adds memory parsed before after tree)
    (unnumbered : value.parentNumber.getD noSubid = noSubid)
    (member : defineNode value.entries ⟨label, none, moduleName, 0⟩ ∈ parsed)
    (members : ∀ node ∈ newNodes moduleName value.entries, node ∈ parsed) (fits : Fits parsed)
    (above : OnlyAt after tree value.parent path)
    (unambiguous : ∀ name ∈ label :: value.names, Unambiguous memory parsed after tree name)
    (proper : ∀ name ∈ value.parent :: value.names, some name ≠ unknownParent) :
    Registered after tree path value label ↔ endsNames value.components = true := by
  have entries : value.entries = entriesOf value.parent value.components := by
    rw [OidValue.entries, if_pos unnumbered, nil_append]
  rw [entries] at member members
  rcases split_number value.components with named | ⟨front, number, _, shape, named⟩
  · -- the node has no parent's name
    rw [defineNode, entriesOf_labelled named] at member
    obtain ⟨name, refers, _⟩ := fits.plain _ member
    cases refers
  · have namesBelow : ∀ init last, value.components = init ++ last → Named init →
        OnlyAt after tree (lastName value.parent init) (path ++ init.map Component.subid) := by
      intro init last split allNamed
      have some_names : ∀ name ∈ init.filterMap Component.name, name ∈ value.names := by
        intro name isName
        rw [OidValue.names, split, filterMap_append]
        exact mem_append_left _ isName
      have nodes : ∀ node ∈ newNodes moduleName (entriesOf value.parent init), node ∈ parsed := by
        intro _ isNode
        apply members
        rw [split, entriesOf_append allNamed, newNodes, filterMap_append]
        exact mem_append_left _ isNode
      refine adds.onlyAt_names allNamed above nodes ?_ ?_
      · intro name isName
        exact unambiguous name (mem_cons_of_mem _ (some_names name isName))
      · intro name isName
        apply proper
        rcases mem_cons.mp isName with rfl | isName
        · exact mem_cons_self
        · exact mem_cons_of_mem _ (some_names name isName)
    have defined : defineNode (entriesOf value.parent value.components) ⟨label, none, moduleName, 0⟩ =
        ⟨label, some (lastName value.parent front), moduleName, number⟩ := by
      rw [defineNode, shape, entriesOf_append named, find?_append, entriesOf_labelled named]
      rfl
    rw [defined] at member
    have properLast : some (lastName value.parent front) ≠ unknownParent := by
      apply proper
      rw [lastName, OidValue.names, shape, filterMap_append]
      rcases mem_cons.mp getLastD_mem_cons with same | inside
      · rw [same]
        exact mem_cons_self
      · exact mem_cons_of_mem _ (mem_append_left _ inside)
    have only :=
      adds.onlyAt_child member (unambiguous label mem_cons_self) rfl properLast (namesBelow front _ shape named)
    rw [shape, endsNames_number named]
    constructor
    · intro registered
      have same := (only _).mp registered.node
      rw [OidValue.numbers, shape, append_assoc] at same
      have count := congrArg List.length (append_cancel_left same)
      simp only [length_map, length_append, length_cons, length_nil] at count
      exact length_eq_zero_iff.mp (by omega)
    · rintro rfl
      refine ⟨(only _).mpr (by rw [OidValue.numbers, shape]; simp [Component.subid]), ?_⟩
      intro init name subid last split filled
      have allNamed : Named (init ++ [.named name subid]) := by
        obtain ⟨butLast, final, rfl⟩ := eq_nil_or_concat' last |>.resolve_left filled
        have whole : (init ++ [.named name subid] ++ butLast) ++ [final] = front ++ [.number number] := by
          rw [← shape, split]
          simp
        rw [← (append_inj' whole rfl).1] at named
        exact named.left
      have below := namesBelow (init ++ [.named name subid]) last (by rw [split]; simp) allNamed
      have isLast : lastName value.parent (init ++ [.named name subid]) = name := by
        rw [lastName, filterMap_append]
        exact getLastD_concat ..
      rw [isLast] at below
      apply (below _).mpr
      simp [Component.subid]

end

/-- The node gets the identifier of its parent followed by all numbers exactly if the value is plain. -/
theorem parseNodeList_oid (tnmMibGetName : List Char → Option (List Char)) (moduleName : Option (List Char))
    (value : OidValue) (parentBound : ∀ number ∈ value.parentNumber, number < 2 ^ 32)
    (bounds : ∀ component ∈ value.components, component.subid < 2 ^ 32) (label : List Char) (nodeList : List Parsed) :
    ∃ nodes defined,
      parseNodeList tnmMibGetName moduleName value.tokens nodeList ⟨label, none, moduleName, 0⟩ =
        some (nodes, defined) ∧
        (value.Plain → defined.parentName ≠ none) ∧
        ∀ memory parsed after tree path, Building memory parsed after tree → defined ∈ parsed →
          (∀ node ∈ nodes, node ∈ parsed) → OnlyAt after tree value.parent path →
          (∀ name ∈ label :: value.names, Unambiguous memory parsed after tree name) →
          (∀ name ∈ value.parent :: value.names, some name ≠ unknownParent) →
            (Registered after tree path value label ↔ value.Plain) := by
  have parses := parseNodeList_tokens tnmMibGetName moduleName parentBound bounds nodeList ⟨label, none, moduleName, 0⟩
  by_cases marked : noSubid ∈ value.numbers
  · refine ⟨_, _, parses, fun plain => absurd marked plain.1, ?_⟩
    intro memory parsed after tree path building _ _ _ _ _
    obtain ⟨_, adds⟩ := building.spec
    constructor
    · intro registered
      exact absurd (mem_append_right path marked) (adds.unmarked_path registered.node)
    · intro plain
      exact absurd marked plain.1
  · rw [addEntries_entries moduleName marked] at parses
    refine ⟨_, _, parses, defineNode_parentName _, ?_⟩
    intro _ parsed _ _ _ building member members above unambiguous proper
    obtain ⟨_, adds⟩ := building.spec
    have ownMembers : ∀ node ∈ newNodes moduleName value.entries, node ∈ parsed :=
      fun node isNode => members node (mem_append_left _ isNode)
    rw [OidValue.Plain]
    by_cases numbered : value.parentNumber.getD noSubid = noSubid
    · rw [if_pos numbered,
        adds.registered_unnumbered numbered member ownMembers building.ready.1 above unambiguous proper]
      simp [marked]
    · rw [if_neg numbered, adds.registered_numbered rfl numbered member above (unambiguous label mem_cons_self)
        (proper _ mem_cons_self)]
      simp [marked]

def dodValue : OidValue := ⟨"iso".toList, none, [.named "org".toList 3, .number 6]⟩

def dodList : List Parsed := [parsedNode "dod" "org" 6, parsedNode "org" "iso" 3]

def dodNodes : List Parsed := dodList ++ rootNodes

def dodTree : AddressTree := .node 0 2 .nil (.node 1 3 (.node 3 1 (.node 6 0 .nil .nil) .nil) (.node 2 4 .nil .nil))

set_option maxRecDepth 20000 in
theorem addNodes_dodList (fuel : Nat) : addNodes (fuel + 12) dodList noMemory = addNodes 12 dodList noMemory := by
  cbv

/-- In a first list the node is 1.3.6, and `org` is 1.3. -/
theorem parseNodeList_dod : ∃ after tree, Building noMemory dodList after tree ∧
      Registered after tree [1] dodValue "dod".toList := by
  obtain ⟨nodes, _, parses, _, oids⟩ :=
    parseNodeList_oid (fun _ => none) none dodValue (by decide) (by decide) "dod".toList []
  have read : parseNodeList (fun _ => none) none dodValue.tokens [] ⟨"dod".toList, none, none, 0⟩ =
      some ([parsedNode "org" "iso" 3], parsedNode "dod" "org" 6) := by
    decide +kernel
  cases read.symm.trans parses
  have ready : Ready noMemory dodList := by
    refine ⟨⟨?_, by decide⟩, fun _ => ⟨by decide, by decide, by decide⟩⟩
    intro node member
    simp only [dodList, mem_cons, not_mem_nil, or_false] at member
    rcases member with rfl | rfl <;> exact ⟨_, rfl, by decide, by decide, by decide, by decide⟩
  have builds : ((addNodes 12 dodList noMemory).bind fun result =>
      result.1.tree.map fun tree => (tree, (List.range 5).map result.1.node)) = some (dodTree, dodNodes) := by
    decide +kernel
  obtain ⟨⟨after, flag⟩, adds, described⟩ := bind_eq_some_iff.mp builds
  obtain ⟨_, isTree, shape⟩ := map_eq_some_iff.mp described
  obtain ⟨rfl, nodes⟩ := Prod.mk.inj shape
  have bounded : ∀ address ∈ dodTree.values, address < 5 := by decide
  have node : ∀ address, address < 5 → some (after.node address) = dodNodes[address]? := by
    intro address small
    rw [← nodes, getElem?_map, getElem?_range small]
    rfl
  have building : Building noMemory dodList after dodTree :=
    ⟨.start, ready, ⟨flag, 12, fun fuel enough => by
      obtain ⟨_, rfl⟩ := Nat.exists_eq_add_of_le' enough
      rw [addNodes_dodList, adds]⟩, isTree⟩
  refine ⟨after, dodTree, building,
    (oids _ _ _ _ [1] building (by decide) (by decide) ?_ ?_ ?_).mpr ⟨by decide, by decide⟩⟩
  · intro other
    constructor
    · rintro ⟨address, member, labelled⟩
      have checked : ∀ entry ∈ dodTree.paths, (dodNodes[entry.2]?).map Parsed.label = some "iso".toList →
          entry.1 = [1] := by
        decide
      apply checked _ member
      rw [← node address (bounded address (mem_values_iff.mpr ⟨other, member⟩)), map_some, labelled]
      rfl
    · rintro rfl
      refine ⟨3, by decide, ?_⟩
      have iso := node 3 (by decide)
      exact congrArg Parsed.label (some.inj iso)
  · intro name member one other knownOne knownOther
    have checked : ∀ name ∈ "dod".toList :: dodValue.names, ∀ one ∈ List.range 5, ∀ other ∈ List.range 5,
        (dodNodes[one]?).map Parsed.label = some name → ((dodNodes[other]?).map Parsed.label = some name ↔
          (dodNodes[other]?).map Parsed.parentName = (dodNodes[one]?).map Parsed.parentName ∧
            (dodNodes[other]?).map Parsed.subid = (dodNodes[one]?).map Parsed.subid) := by
      decide
    have small : ∀ address, NewNode noMemory dodList address ∨ address ∈ dodTree.values → address < 5 := by
      rintro address (⟨_, new⟩ | inTree)
      · exact Nat.lt_of_lt_of_le new (by decide)
      · exact bounded address inTree
    have result := checked name member one (mem_range.mpr (small one knownOne)) other
      (mem_range.mpr (small other knownOther))
    simpa only [← node one (small one knownOne), ← node other (small other knownOther), map_some,
      Option.some.injEq, Memory.subid] using result
  · decide

def readAndBuild (value : OidValue) (label : String) : Option AddressTree :=
  (parseNodeList (fun _ => none) none value.tokens [] ⟨label.toList, none, none, 0⟩).bind fun result =>
    (addNodes 12 (result.2 :: result.1) noMemory).bind fun added => added.1.tree

/-- `{ iso 3 6 }` is taken for 1.3, and `{ iso(1) org(3) 6 }` for 1.1. -/
theorem parseNodeList_first : readAndBuild ⟨"iso".toList, none, [.number 3, .number 6]⟩ "dod" =
        some (.node 0 1 .nil (.node 1 2 (.node 3 0 .nil .nil) (.node 2 3 .nil .nil))) ∧
      readAndBuild ⟨"iso".toList, some 1, [.named "org".toList 3, .number 6]⟩ "dod" =
        some (.node 0 2 .nil (.node 1 3 (.node 1 0 .nil (.node 3 1 .nil .nil)) (.node 2 4 .nil .nil))) ∧
      parseNodeList (fun _ => none) none (OidValue.tokens ⟨"iso".toList, none, [.named "org".toList 3]⟩) []
          ⟨"dod".toList, none, none, 0⟩ = some ([parsedNode "org" "iso" 3], ⟨"dod".toList, none, none, 0⟩) ∧
      parseNodeList (fun _ => none) none (OidValue.tokens ⟨"iso".toList, none, [.number 4294967295]⟩) []
          ⟨"dod".toList, none, none, 0⟩ = some ([], ⟨"dod".toList, none, none, 0⟩) := by
  decide +kernel

end Tnm.Mib
