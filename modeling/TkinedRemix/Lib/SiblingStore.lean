import TkinedRemix.Lib.Chain
import TkinedRemix.Lib.SiblingGraft

/-!
Sibling trees in a store of cells. The values of the tree are the addresses of the cells.
-/

namespace Lib

open SiblingTree

variable {α γ : Type} (nextPtr childPtr : γ → Option Nat) (key : Nat → α)

def Stored (cells : Nat → γ) : SiblingTree α Nat → Option Nat → Prop
  | nil, pointer => pointer = none
  | node first address child next, pointer =>
    pointer = some address ∧ first = key address ∧ Stored cells child (childPtr (cells address)) ∧
      Stored cells next (nextPtr (cells address))

/-- The tree a pointer leads to, or `none` if it has branches of more than `fuel` cells. -/
def readSiblings (cells : Nat → γ) : Nat → Option Nat → Option (SiblingTree α Nat)
  | _, none => some nil
  | 0, some _ => none
  | fuel + 1, some address => do
      let child ← readSiblings cells fuel (childPtr (cells address))
      let next ← readSiblings cells fuel (nextPtr (cells address))
      return node (key address) address child next

variable {nextPtr childPtr key} {cells other : Nat → γ} {tree : SiblingTree α Nat} {pointer : Option Nat}
  (stored : Stored nextPtr childPtr key cells tree pointer)

include stored

theorem Stored.read {fuel : Nat}
    (enough : tree.values.length ≤ fuel) : readSiblings nextPtr childPtr key cells fuel pointer = some tree := by
  induction tree generalizing pointer fuel with
  | nil =>
    cases stored
    cases fuel <;> rfl
  | node _ _ _ _ childIh nextIh =>
    obtain ⟨rfl, rfl, childStored, nextStored⟩ := stored
    rw [values, List.length_cons, List.length_append] at enough
    cases fuel with
    | zero => omega
    | succ =>
      rw [readSiblings, childIh childStored (by omega), nextIh nextStored (by omega)]
      rfl

theorem Stored.congr {key' : Nat → α} (same : ∀ address ∈ tree.values, other address = cells address)
    (sameKey : ∀ address ∈ tree.values, key' address = key address) :
    Stored nextPtr childPtr key' other tree pointer := by
  induction tree generalizing pointer with
  | nil => exact stored
  | node _ address _ _ childIh nextIh =>
    obtain ⟨points, isKey, childStored, nextStored⟩ := stored
    simp only [mem_values_node] at same sameKey
    refine ⟨points, by rw [isKey, sameKey address (.inl rfl)], ?_, ?_⟩
    · rw [same address (.inl rfl)]
      exact childIh childStored (fun inner member => same inner (.inr (.inl member))) fun inner member =>
        sameKey inner (.inr (.inl member))
    · rw [same address (.inl rfl)]
      exact nextIh nextStored (fun later member => same later (.inr (.inr member))) fun later member =>
        sameKey later (.inr (.inr member))

theorem Stored.frame (same : ∀ address ∈ tree.values, other address = cells address) :
    Stored nextPtr childPtr key other tree pointer := stored.congr same fun _ _ => rfl

theorem Stored.unique {again : SiblingTree α Nat}
    (twice : Stored nextPtr childPtr key cells again pointer) : tree = again := by
  induction tree generalizing pointer again with
  | nil =>
    cases stored
    cases again with
    | nil => rfl
    | node => cases twice.1
  | node _ _ _ _ childIh nextIh =>
    obtain ⟨rfl, rfl, childStored, nextStored⟩ := stored
    cases again with
    | nil => cases twice
    | node =>
      obtain ⟨same, rfl, childTwice, nextTwice⟩ := twice
      cases same
      rw [childIh childStored childTwice, nextIh nextStored nextTwice]

variable {path : List α} {address : Nat}

theorem Stored.key_eq (member : (path, address) ∈ tree.paths) : ∃ above, path = above ++ [key address] := by
  induction tree generalizing pointer path with
  | nil => cases member
  | node _ here _ _ childIh nextIh =>
    obtain ⟨rfl, rfl, childStored, nextStored⟩ := stored
    rcases mem_paths_node.mp member with ⟨rfl, rfl⟩ | ⟨_, below, rfl⟩ | later
    · exact ⟨[], rfl⟩
    · obtain ⟨above, rfl⟩ := childIh childStored below
      exact ⟨key here :: above, rfl⟩
    · exact nextIh nextStored later

theorem Stored.keys_of_path
    (member : (path, address) ∈ tree.paths) : ∀ step ∈ path, ∃ other ∈ tree.values, step = key other := by
  induction tree generalizing pointer path with
  | nil => cases member
  | node _ here _ _ childIh nextIh =>
    obtain ⟨rfl, rfl, childStored, nextStored⟩ := stored
    simp only [mem_values_node]
    intro step inPath
    rcases mem_paths_node.mp member with ⟨rfl, rfl⟩ | ⟨_, below, rfl⟩ | later
    · exact ⟨address, .inl rfl, List.mem_singleton.mp inPath⟩
    · rcases List.mem_cons.mp inPath with rfl | deeper
      · exact ⟨here, .inl rfl, rfl⟩
      · obtain ⟨other, known, same⟩ := childIh childStored below step deeper
        exact ⟨other, .inr (.inl known), same⟩
    · obtain ⟨other, known, same⟩ := nextIh nextStored later step inPath
      exact ⟨other, .inr (.inr known), same⟩

theorem Stored.within {part : SiblingTree α Nat} (within : part.Within tree) :
    ∃ own, Stored nextPtr childPtr key cells part own := by
  induction within generalizing pointer with
  | here => exact ⟨pointer, stored⟩
  | child _ ih => exact ih stored.2.2.1
  | next _ ih => exact ih stored.2.2.2

theorem Stored.cell (member : address ∈ tree.values) :
    ∃ child next, (node (key address) address child next).Within tree ∧
      Stored nextPtr childPtr key cells child (childPtr (cells address)) ∧
      Stored nextPtr childPtr key cells next (nextPtr (cells address)) := by
  obtain ⟨_, child, next, within⟩ := exists_within member
  obtain ⟨_, _, rfl, below⟩ := stored.within within
  exact ⟨child, next, within, below⟩

theorem Stored.children (member : address ∈ tree.values) :
    ∃ children, Stored nextPtr childPtr key cells children (childPtr (cells address)) := by
  obtain ⟨child, _, _, childStored, _⟩ := stored.cell member
  exact ⟨child, childStored⟩

variable {children : SiblingTree α Nat}

theorem Stored.children_subset (member : address ∈ tree.values)
    (below : Stored nextPtr childPtr key cells children (childPtr (cells address))) :
    ∀ inner ∈ children.values, inner ∈ tree.values := by
  obtain ⟨_, _, within, childStored, _⟩ := stored.cell member
  rw [below.unique childStored]
  exact fun inner inside => within.values.subset (mem_values_node.mpr (.inr (.inl inside)))

theorem Stored.children_proper [LinearOrder α] (nodup : tree.values.Nodup) (sorted : tree.Sorted)
    (member : address ∈ tree.values) (below : Stored nextPtr childPtr key cells children (childPtr (cells address))) :
    children.values.Nodup ∧ children.Sorted ∧ address ∉ children.values := by
  obtain ⟨_, _, within, childStored, _⟩ := stored.cell member
  rw [below.unique childStored]
  obtain ⟨head, childNodup, _⟩ := nodup_node.mp (nodup.sublist within.values)
  exact ⟨childNodup, (within.sorted sorted).1, head.1⟩

variable {δ : Type} {label reference : Nat → δ} {above : δ}

theorem Stored.siblings (named : tree.Named label reference above) :
    ∃ chain, Linked nextPtr (fun address => some (cells address)) pointer chain ∧
      ∀ address ∈ chain, reference address = above := by
  induction tree generalizing pointer with
  | nil => exact ⟨[], stored, fun _ member => nomatch member⟩
  | node _ here _ _ _ nextIh =>
    obtain ⟨rfl, rfl, _, nextStored⟩ := stored
    obtain ⟨own, _, later⟩ := named
    obtain ⟨chain, linked, refer⟩ := nextIh nextStored later
    exact ⟨here :: chain, ⟨rfl, cells here, rfl, linked⟩, List.forall_mem_cons.mpr ⟨own, refer⟩⟩

theorem Stored.siblings_after (named : tree.Named label reference above) (member : address ∈ tree.values) :
    ∃ chain, Linked nextPtr (fun address => some (cells address)) (nextPtr (cells address)) chain ∧
      ∀ later ∈ chain, reference later = reference address := by
  obtain ⟨_, _, within, _, nextStored⟩ := stored.cell member
  obtain ⟨_, own, _, behind⟩ := within.named named
  rw [own]
  exact nextStored.siblings behind

theorem Stored.links_spec [LinearOrder α] (sorted : tree.Sorted) (named : tree.Named label reference above)
    (member : address ∈ tree.values) : (∀ next, nextPtr (cells address) = some next →
      next ∈ tree.values ∧ reference next = reference address ∧ key address < key next) ∧
    (∀ child, childPtr (cells address) = some child → child ∈ tree.values ∧ reference child = label address) := by
  obtain ⟨child, next, within, childStored, nextStored⟩ := stored.cell member
  obtain ⟨_, own, below, behind⟩ := within.named named
  obtain ⟨_, smaller, _⟩ := within.sorted sorted
  have known := within.values.subset
  constructor
  · intro _ points
    rw [points] at nextStored
    cases next with
    | nil => cases nextStored
    | node =>
      obtain ⟨same, rfl, _⟩ := nextStored
      cases same
      exact ⟨known (by simp [values]), behind.1.trans own.symm, smaller _ (by simp [keys])⟩
  · intro _ points
    rw [points] at childStored
    cases child with
    | nil => cases childStored
    | node =>
      obtain ⟨same, rfl, _⟩ := childStored
      cases same
      exact ⟨known (by simp [values]), below.1⟩

theorem Stored.child_path [LinearOrder α] {child : Nat} {step : α} (sorted : tree.Sorted)
    (member : (path, address) ∈ tree.paths)
    (below : Stored nextPtr childPtr key cells children (childPtr (cells address)))
    (isChild : (path ++ [step], child) ∈ tree.paths) : ([step], child) ∈ children.paths := by
  induction tree generalizing pointer path with
  | nil => cases member
  | node _ _ _ _ childIh nextIh =>
    have position := mem_paths_child sorted member isChild
    obtain ⟨rfl, rfl, innerStored, nextStored⟩ := stored
    rcases position with ⟨_, rfl, inside⟩ | ⟨_, _, deeper, inside⟩ | ⟨later, inside⟩
    · rw [below.unique innerStored]
      exact inside
    · exact childIh innerStored sorted.1 deeper inside
    · exact nextIh nextStored sorted.2.2 later inside

theorem Stored.graft [LinearOrder α] {parent value : Nat} {first : α} (nodup : tree.values.Nodup)
    (member : parent ∈ tree.values) (below : Stored nextPtr childPtr key cells children (childPtr (cells parent)))
    (changed : Stored nextPtr childPtr key other (children.place first value) (childPtr (other parent)))
    (sameNext : nextPtr (other parent) = nextPtr (cells parent))
    (same : ∀ address ∈ tree.values, address ≠ parent → address ∉ children.values → other address = cells address) :
    Stored nextPtr childPtr key other (tree.graft parent first value) pointer := by
  induction tree generalizing pointer with
  | nil => cases member
  | node _ here child _ childIh nextIh =>
    obtain ⟨rfl, rfl, childStored, nextStored⟩ := stored
    obtain ⟨head, childNodup, nextNodup, apart⟩ := nodup_node.mp nodup
    simp only [mem_values_node] at member same
    rw [SiblingTree.graft]
    rcases member with rfl | deeper | later
    · -- the parent is here, and what follows does not change
      have isChild : children = child := below.unique childStored
      subst isChild
      rw [if_pos rfl, graft_of_notMem head.2]
      refine ⟨rfl, rfl, changed, ?_⟩
      rw [sameNext]
      refine nextStored.frame fun address inside => same address (.inr (.inr inside)) ?_ fun both => apart both inside
      rintro rfl
      exact head.2 inside
    · have inner := childStored.children_subset deeper below
      have different : here ≠ parent := by
        rintro rfl
        exact head.1 deeper
      rw [if_neg different, graft_of_notMem fun both => apart deeper both]
      refine ⟨rfl, rfl, ?_, ?_⟩
      · rw [same here (.inl rfl) different fun both => head.1 (inner here both)]
        exact childIh childStored childNodup deeper fun address inside => same address (.inr (.inl inside))
      · rw [same here (.inl rfl) different fun both => head.1 (inner here both)]
        refine nextStored.frame fun address inside =>
          same address (.inr (.inr inside)) ?_ fun both => apart (inner address both) inside
        rintro rfl
        exact apart deeper inside
    · have inner := nextStored.children_subset later below
      have different : here ≠ parent := by
        rintro rfl
        exact head.2 later
      rw [if_neg different, graft_of_notMem fun both => apart both later]
      refine ⟨rfl, rfl, ?_, ?_⟩
      · rw [same here (.inl rfl) different fun both => head.2 (inner here both)]
        refine childStored.frame fun address inside =>
          same address (.inr (.inl inside)) ?_ fun both => apart inside (inner address both)
        rintro rfl
        exact apart inside later
      · rw [same here (.inl rfl) different fun both => head.2 (inner here both)]
        exact nextIh nextStored nextNodup later fun address inside => same address (.inr (.inr inside))

end Lib
