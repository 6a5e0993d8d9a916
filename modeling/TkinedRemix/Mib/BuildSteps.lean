import TkinedRemix.Mib.Build

/-!
What one node does to the tree: it leaves its list and is added below its parent unless its place is taken.
-/

namespace Tnm.Mib

open Lib SiblingTree List Function

def Place.owner : Place → Option Nat
  | .bucket _ => none
  | .next address => some address
  | .child address => some address

section

variable (memory : Memory) (pointer : Option Nat) (place : Place)
include memory pointer place

@[simp] theorem store_node : (memory.store pointer place).node = memory.node := by
  cases place <;> rfl

@[simp] theorem store_size : (memory.store pointer place).size = memory.size := by
  cases place <;> rfl

@[simp] theorem store_tnmMibTree : (memory.store pointer place).tnmMibTree = memory.tnmMibTree := by
  cases place <;> rfl

@[simp] theorem store_nodeHashTable : (memory.store pointer place).nodeHashTable = memory.nodeHashTable := by
  cases place <;> rfl

end

theorem store_nodehashtab {place : Place} {address : Nat} (owned : place.owner = some address) (memory : Memory)
    (pointer : Option Nat) : (memory.store pointer place).nodehashtab = memory.nodehashtab := by
  cases place with
  | bucket => cases owned
  | next | child => rfl

@[simp] theorem load_store (memory : Memory) (pointer : Option Nat) (place : Place) :
    (memory.store pointer place).load place = pointer := by
  cases place <;> simp [Memory.store, Memory.load, Memory.setLinks]

theorem load_store_of_ne {place other : Place} (different : other ≠ place) (memory : Memory) (pointer : Option Nat) :
    (memory.store pointer place).load other = memory.load other := by
  cases place <;> cases other <;>
    simp_all [Memory.store, Memory.load, Memory.setLinks, update_apply] <;> split <;> simp_all

theorem links_store_of_ne {place : Place} {address : Nat} (different : place.owner ≠ some address) (memory : Memory)
    (pointer : Option Nat) : (memory.store pointer place).links address = memory.links address := by
  cases place with
  | bucket => rfl
  | next owner | child owner =>
    have other : address ≠ owner := fun same => different (by rw [same]; rfl)
    simp [Memory.store, Memory.setLinks, other]

abbrev Memory.Holds (memory : Memory) (tree : AddressTree) (pointer : Option Nat) : Prop :=
  Stored Links.nextPtr Links.childPtr memory.subid memory.links tree pointer

abbrev Memory.Chain (memory : Memory) (pointer : Option Nat) (chain : List Nat) : Prop :=
  Linked Links.nextPtr (fun address => some (memory.links address)) pointer chain

theorem holds_frame {memory other : Memory} {tree : AddressTree} {pointer : Option Nat}
    (held : memory.Holds tree pointer)
    (texts : other.node = memory.node) (same : ∀ address ∈ tree.values, other.links address = memory.links address) :
    other.Holds tree pointer := by
  have subids : other.subid = memory.subid := by
    funext address
    rw [Memory.subid, texts, Memory.subid]
  rw [Memory.Holds, subids]
  exact held.frame same

theorem chain_frame {memory other : Memory} {pointer : Option Nat} {chain : List Nat}
    (linked : memory.Chain pointer chain)
    (same : ∀ address ∈ chain, other.links address = memory.links address) : other.Chain pointer chain :=
  linked.frame fun address member => congrArg some (same address member)

structure Stage where
  tree : AddressTree
  waiting : Finset Nat
  gone : Finset Nat

structure Grown (memory : Memory) (top : Option Nat) (tree : AddressTree) : Prop where
  held : memory.Holds tree top
  nodup : tree.values.Nodup
  sorted : tree.Sorted
  named : tree.Named (fun address => some (memory.node address).label) (fun address => (memory.node address).parentName)
    unknownParent
  bounded : ∀ address ∈ tree.values, address < memory.size
  registered : ∀ label address, memory.nodeHashTable label = some (some address) →
    address ∈ tree.values ∧ (memory.node address).label = label

theorem Grown.frame {memory other : Memory} {top : Option Nat} {tree : AddressTree} (grown : Grown memory top tree)
    (texts : other.node = memory.node) (sizes : other.size = memory.size)
    (tables : other.nodeHashTable = memory.nodeHashTable)
    (same : ∀ address ∈ tree.values, other.links address = memory.links address) : Grown other top tree := by
  refine ⟨holds_frame grown.held texts same, grown.nodup, grown.sorted, ?_, ?_, ?_⟩
  · rw [texts]
    exact grown.named
  · rw [sizes]
    exact grown.bounded
  · rw [tables, texts]
    exact grown.registered

def Memory.hashOf (memory : Memory) (address : Nat) : Option Nat := (memory.node address).parentName.map hashNodeLabel

structure Represents (memory : Memory) (top : Option Nat) (stage : Stage) : Prop where
  grown : Grown memory top stage.tree
  bins : ∀ hash, ∃ bin, memory.Chain (memory.nodehashtab hash) bin ∧
    ∀ address, address ∈ bin ↔ address ∈ stage.waiting ∧ memory.hashOf address = some hash
  apart : ∀ address ∈ stage.waiting, address ∉ stage.tree.values
  inside : ∀ address ∈ stage.waiting, address < memory.size
  alone : ∀ address ∈ stage.gone,
    (memory.links address).nextPtr = none ∧ address ∉ stage.tree.values ∧ address ∉ stage.waiting

def Step (node : Nat → Parsed) (before after : Stage) : Prop :=
  ∃ root thisNode, root ∈ before.tree.values ∧ thisNode ∈ before.waiting ∧
    (node thisNode).parentName = some (node root).label ∧
    after.tree = before.tree.graft root (node thisNode).subid thisNode ∧
    after.waiting = before.waiting.erase thisNode ∧
    after.gone = if thisNode ∈ after.tree.values then before.gone else insert thisNode before.gone

structure Kept (before after : Memory) : Prop where
  node : after.node = before.node
  size : after.size = before.size
  top : after.tnmMibTree = before.tnmMibTree

theorem Kept.refl (memory : Memory) : Kept memory memory := ⟨rfl, rfl, rfl⟩

theorem Kept.trans {first second third : Memory} (one : Kept first second) (two : Kept second third) :
    Kept first third :=
  ⟨two.node.trans one.node, two.size.trans one.size, two.top.trans one.top⟩

section

variable {memory : Memory} {thisNode : Nat}

abbrev Memory.linkAt (memory : Memory) (thisNode : Nat) (place : Place) : Memory :=
  (memory.store (memory.load place) (.next thisNode)).store (some thisNode) place

theorem linkAt_load_of_ne {place other : Place} (different : other ≠ place) (outside : other.owner ≠ some thisNode) :
    (memory.linkAt thisNode place).load other = memory.load other := by
  rw [load_store_of_ne different, load_store_of_ne]
  rintro rfl
  exact outside rfl

theorem linkAt_links_of_ne {place : Place} {address : Nat} (different : address ≠ thisNode)
    (outside : place.owner ≠ some address) : (memory.linkAt thisNode place).links address = memory.links address := by
  rw [links_store_of_ne outside, links_store_of_ne]
  intro same
  cases same
  exact different rfl

theorem linkAt_links_self {place : Place} (outside : place.owner ≠ some thisNode) :
    (memory.linkAt thisNode place).links thisNode = ⟨memory.load place, (memory.links thisNode).childPtr⟩ := by
  rw [links_store_of_ne outside]
  simp [Memory.store, Memory.setLinks]

theorem skipSmaller_place {siblings : AddressTree} {ptr : Place}
    (held : memory.Holds siblings (memory.load ptr)) (nodup : siblings.values.Nodup)
    (fresh : thisNode ∉ siblings.values) (outside : ∀ address, ptr.owner = some address → address ∉ siblings.values)
    (other : ptr.owner ≠ some thisNode) (childless : (memory.links thisNode).childPtr = none) :
    ∃ final, (∀ fuel > siblings.values.length, skipSmaller memory (memory.subid thisNode) fuel ptr = some final) ∧
      (final = ptr ∨ ∃ address ∈ siblings.values, final = .next address) ∧
      ((∃ address ∈ siblings.values, memory.load final = some address ∧ memory.subid address = memory.subid thisNode ∧
          siblings.place (memory.subid thisNode) thisNode = siblings) ∨
        ((∀ address, memory.load final = some address → memory.subid address ≠ memory.subid thisNode) ∧
          thisNode ∈ (siblings.place (memory.subid thisNode) thisNode).values ∧
          (memory.linkAt thisNode final).Holds (siblings.place (memory.subid thisNode) thisNode)
            ((memory.linkAt thisNode final).load ptr))) := by
  induction siblings generalizing ptr with
  | nil =>
    have empty : memory.load ptr = none := held
    refine ⟨ptr, ?_, .inl rfl, .inr ⟨?_, ?_, ?_⟩⟩
    · rintro (_ | fuel) enough
      · omega
      rw [skipSmaller, empty]
    · intro address points
      cases empty.symm.trans points
    · simp [place, values]
    · rw [load_store]
      refine ⟨rfl, ?_, ?_, ?_⟩
      · simp [Memory.subid]
      · rw [linkAt_links_self other, childless]
        rfl
      · rw [linkAt_links_self other, empty]
        rfl
  | node _ address child next _ nextIh =>
    obtain ⟨points, rfl, childHeld, nextHeld⟩ := held
    obtain ⟨head, _, nextNodup, apart⟩ := nodup_node.mp nodup
    have freshBelow : thisNode ≠ address ∧ thisNode ∉ child.values ∧ thisNode ∉ next.values := by
      simpa [values] using fresh
    have looks : ∀ fuel > (SiblingTree.node (memory.subid address) address child next).values.length,
        ∃ less, fuel = less + 1 ∧ next.values.length < less ∧ skipSmaller memory (memory.subid thisNode) fuel ptr =
          if memory.subid address < memory.subid thisNode then
            skipSmaller memory (memory.subid thisNode) less (.next address) else some ptr := by
      rintro (_ | less) enough
      · simp at enough
      rw [values, length_cons, length_append] at enough
      exact ⟨less, rfl, by omega, by rw [skipSmaller, points]⟩
    rw [place]
    by_cases smaller : memory.subid address < memory.subid thisNode
    · rw [if_pos smaller]
      simp only [if_pos smaller] at looks
      have nextOutside : ∀ owner, (Place.next address).owner = some owner → owner ∉ next.values := by
        intro owner same
        cases same
        exact head.2
      have differs : (Place.next address).owner ≠ some thisNode := fun same => freshBelow.1 (Option.some.inj same).symm
      have nextAt : memory.Holds next (memory.load (.next address)) := nextHeld
      obtain ⟨final, found, position, outcome⟩ :=
        nextIh nextAt nextNodup freshBelow.2.2 nextOutside differs
      -- the place that is found belongs to this sibling or to one behind it
      have owned : ∃ owner, final = .next owner ∧ (owner = address ∨ owner ∈ next.values) := by
        rcases position with rfl | ⟨owner, member, rfl⟩
        · exact ⟨address, rfl, .inl rfl⟩
        · exact ⟨owner, rfl, .inr member⟩
      obtain ⟨owner, rfl, owners⟩ := owned
      have isOwner : owner ∈ (SiblingTree.node (memory.subid address) address child next).values :=
        mem_values_node.mpr (owners.imp_right .inr)
      refine ⟨.next owner, ?_, .inr ⟨owner, isOwner, rfl⟩, ?_⟩
      · intro fuel enough
        obtain ⟨less, _, enoughLess, search⟩ := looks fuel enough
        rw [search, found less enoughLess]
      · rcases outcome with ⟨taken, member, loaded, same, unchanged⟩ | ⟨free, isThere, linked⟩
        · exact .inl ⟨taken, mem_values_node.mpr (.inr (.inr member)), loaded, same, by rw [unchanged]⟩
        · refine .inr ⟨free, mem_values_node.mpr (.inr (.inr isThere)), ?_⟩
          · have elsewhere : ptr ≠ .next owner := by
              rintro rfl
              exact outside owner rfl isOwner
            rw [linkAt_load_of_ne elsewhere other, points]
            have childSame : (memory.linkAt thisNode (.next owner)).load (.child address) =
                memory.load (.child address) :=
              linkAt_load_of_ne (by simp) differs
            refine ⟨rfl, by simp [Memory.subid], ?_, linked⟩
            have childAt : memory.Holds child (memory.load (.child address)) := childHeld
            rw [← childSame] at childAt
            refine holds_frame childAt (by simp) ?_
            intro inner member
            apply linkAt_links_of_ne
            · rintro rfl
              exact freshBelow.2.1 member
            · intro same
              cases same
              rcases owners with rfl | inNext
              · exact head.1 member
              · exact apart member inNext
    · rw [if_neg smaller]
      simp only [if_neg smaller] at looks
      have found : ∀ fuel > (SiblingTree.node (memory.subid address) address child next).values.length,
          skipSmaller memory (memory.subid thisNode) fuel ptr = some ptr := by
        intro fuel enough
        obtain ⟨_, _, _, search⟩ := looks fuel enough
        exact search
      by_cases same : memory.subid address = memory.subid thisNode
      · rw [if_pos same]
        refine ⟨ptr, found, .inl rfl, .inl ⟨address, ?_, points, same, rfl⟩⟩
        simp [values]
      · rw [if_neg same]
        refine ⟨ptr, found, .inl rfl, .inr ⟨?_, ?_, ?_⟩⟩
        · intro _ loaded
          cases points.symm.trans loaded
          exact same
        · simp [values]
        · rw [load_store]
          have whole : memory.Holds (.node (memory.subid address) address child next) (memory.load ptr) :=
            ⟨points, rfl, childHeld, nextHeld⟩
          refine ⟨rfl, by simp [Memory.subid], ?_, ?_⟩
          · rw [linkAt_links_self other, childless]
            rfl
          · rw [linkAt_links_self other]
            refine holds_frame whole (by simp) ?_
            intro inner member
            apply linkAt_links_of_ne
            · rintro rfl
              exact fresh member
            · exact fun owned => outside inner owned member

theorem hashNode_eq (memory : Memory) (address : Nat) :
    ∃ table, hashNode memory address = { memory with nodeHashTable := table } ∧
      ∀ label entry, table label = some (some entry) →
        memory.nodeHashTable label = some (some entry) ∨ (entry = address ∧ label = (memory.node address).label) := by
  have updated : ∀ stored, (∀ entry, stored = some entry → entry = address) → ∀ label entry,
      update memory.nodeHashTable (memory.node address).label (some stored) label = some (some entry) →
        memory.nodeHashTable label = some (some entry) ∨ (entry = address ∧ label = (memory.node address).label) := by
    intro _ own label entry found
    rw [update_apply] at found
    split at found
    next here => exact .inr ⟨own entry (Option.some.inj found), here⟩
    next => exact .inl found
  rw [hashNode]
  split
  · exact ⟨_, rfl, updated (some address) fun entry same => (Option.some.inj same).symm⟩
  · split
    · exact ⟨memory.nodeHashTable, rfl, fun label entry found => .inl found⟩
    · exact ⟨_, rfl, updated none (fun entry same => nomatch same)⟩

theorem length_le_of_bounded {addresses : List Nat} (nodup : addresses.Nodup) {bound : Nat}
    (bounded : ∀ address ∈ addresses, address < bound) : addresses.length ≤ bound := by
  have used : addresses ⊆ List.range bound := fun address member => mem_range.mpr (bounded address member)
  simpa using (nodup.subperm used).length_le

variable {top : Option Nat} {stage : Stage} {root : Nat}

theorem Grown.graft {after : Memory} (grown : Grown memory top stage.tree)
    (fresh : thisNode ∉ stage.tree.values) (small : thisNode < memory.size)
    (refers : (memory.node thisNode).parentName = some (memory.node root).label) (kept : Kept memory after)
    (held : after.Holds (stage.tree.graft root (memory.subid thisNode) thisNode) top)
    (registered : ∀ label address, after.nodeHashTable label = some (some address) →
      address ∈ (stage.tree.graft root (memory.subid thisNode) thisNode).values ∧ (memory.node address).label = label) :
    Grown after top (stage.tree.graft root (memory.subid thisNode) thisNode) := by
  refine ⟨held, nodup_graft grown.nodup fresh root _, grown.sorted.graft root _ _, ?_, ?_, ?_⟩
  · rw [kept.node]
    exact grown.named.graft refers _
  · intro address member
    rw [kept.size]
    rcases mem_values_graft member with old | rfl
    · exact grown.bounded address old
    · exact small
  · rw [kept.node]
    exact registered

theorem linkNode_spec (represents : Represents memory top stage) (isRoot : root ∈ stage.tree.values)
    (isGone : thisNode ∈ stage.gone) (childless : (memory.links thisNode).childPtr = none)
    (refers : (memory.node thisNode).parentName = some (memory.node root).label) (small : thisNode < memory.size) :
    ∃ after child tree, (∀ fuel > memory.size, linkNode fuel memory root thisNode = some (after, child)) ∧
      Kept memory after ∧
      tree = stage.tree.graft root (memory.subid thisNode) thisNode ∧ child ∈ tree.values ∧
      (thisNode ∈ tree.values → child = thisNode) ∧ Represents after top
        ⟨tree, stage.waiting, if thisNode ∈ tree.values then stage.gone.erase thisNode else stage.gone⟩ := by
  obtain ⟨grown, bins, apart, inside, alone⟩ := represents
  obtain ⟨_, fresh, notWaiting⟩ := alone thisNode isGone
  obtain ⟨children, below⟩ := grown.held.children isRoot
  obtain ⟨nodup, _, notOwn⟩ := grown.held.children_proper grown.nodup grown.sorted isRoot below
  have inner := grown.held.children_subset isRoot below
  have differs : root ≠ thisNode := by
    rintro rfl
    exact fresh isRoot
  have short : children.values.length ≤ memory.size :=
    length_le_of_bounded nodup fun address member => grown.bounded address (inner address member)
  have belowAt : memory.Holds children (memory.load (.child root)) := below
  obtain ⟨final, found, position, outcome⟩ := skipSmaller_place belowAt nodup
    (fun member => fresh (inner thisNode member)) (fun address same => by cases same; exact notOwn)
    (fun same => differs (Option.some.inj same)) childless
  rcases outcome with ⟨address, member, loaded, same, unchanged⟩ | ⟨free, isThere, linked⟩
  · -- the place is taken: neither the memory nor the tree changes
    have held := grown.held.graft grown.nodup isRoot below (by rw [unchanged]; exact below) rfl fun _ _ _ _ => rfl
    have sameTree : stage.tree.graft root (memory.subid thisNode) thisNode = stage.tree := held.unique grown.held
    refine ⟨memory, address, stage.tree, ?_, .refl memory, sameTree.symm, inner address member,
      fun isThere => absurd isThere fresh, ?_⟩
    · intro fuel enough
      simp [linkNode, found fuel (by omega), loaded, same]
    · rw [if_neg fresh]
      exact ⟨grown, bins, apart, inside, alone⟩
  · obtain ⟨owner, owned, inTree⟩ : ∃ owner, final.owner = some owner ∧ (owner = root ∨ owner ∈ children.values) := by
      rcases position with rfl | ⟨owner, member, rfl⟩
      · exact ⟨root, rfl, .inl rfl⟩
      · exact ⟨owner, rfl, .inr member⟩
    have ownerOld : owner ∈ stage.tree.values := by
      rcases inTree with rfl | member
      · exact isRoot
      · exact inner owner member
    -- the cells that are not in the tree do not change, but for the node itself
    have linksSame : ∀ address, address ∉ stage.tree.values → address ≠ thisNode →
        (memory.linkAt thisNode final).links address = memory.links address := by
      intro address outside different
      apply linkAt_links_of_ne different
      rw [owned]
      intro same
      cases same
      exact outside ownerOld
    have nextSame : (memory.linkAt thisNode final).load (.next root) = memory.load (.next root) := by
      apply linkAt_load_of_ne
      · rintro rfl
        rcases position with wrong | ⟨address, member, same⟩
        · cases wrong
        · cases same
          exact notOwn member
      · exact fun same => differs (Option.some.inj same)
    have subids : (memory.linkAt thisNode final).subid = memory.subid := by
      funext address
      simp [Memory.subid]
    rw [Memory.Holds, subids] at linked
    have held := grown.held.graft grown.nodup isRoot below linked nextSame fun address member different outside => by
      apply linkAt_links_of_ne
      · rintro rfl
        exact fresh member
      · rw [owned]
        intro same
        cases same
        rcases inTree with same | inChildren
        · exact different same
        · exact outside inChildren
    have isLinked : thisNode ∈ (stage.tree.graft root (memory.subid thisNode) thisNode).values :=
      held.children_subset (values_graft root _ _ isRoot) linked thisNode isThere
    obtain ⟨table, shape, entries⟩ := hashNode_eq (memory.linkAt thisNode final) thisNode
    have kept : Kept memory { memory.linkAt thisNode final with nodeHashTable := table } := by
      refine ⟨?_, ?_, ?_⟩ <;> simp
    refine ⟨{ memory.linkAt thisNode final with nodeHashTable := table }, thisNode, _, ?_, kept, rfl, isLinked,
      fun _ => rfl, ?_,
      ?_, ?_, ?_, ?_⟩
    · intro fuel _
      rw [linkNode, found fuel (by omega), ← shape]
      simp only [Option.bind_eq_bind, Option.bind_some]
      split
      next => rfl
      next address loaded => rw [if_neg (free address loaded)]; rfl
    · have heldAfter :
        (memory.linkAt thisNode final).Holds (stage.tree.graft root (memory.subid thisNode) thisNode) top := by
        rw [Memory.Holds, subids]
        exact held
      refine grown.graft fresh small refers kept heldAfter ?_
      intro label address entry
      rcases entries label address entry with old | ⟨rfl, rfl⟩
      · rw [store_nodeHashTable] at old
        obtain ⟨member, named⟩ := grown.registered label address old
        exact ⟨values_graft root _ _ member, named⟩
      · exact ⟨isLinked, by simp⟩
    · intro hash
      obtain ⟨bin, chain, members⟩ := bins hash
      have sameTable : (memory.linkAt thisNode final).nodehashtab = memory.nodehashtab := by
        rw [store_nodehashtab owned]
        rfl
      refine ⟨bin, ?_, ?_⟩
      · have moved : (memory.linkAt thisNode final).Chain ((memory.linkAt thisNode final).nodehashtab hash) bin := by
          rw [sameTable]
          refine chain_frame chain fun address member => ?_
          have waits := ((members address).mp member).1
          apply linksSame address (apart address waits)
          rintro rfl
          exact notWaiting waits
        exact moved
      · intro address
        rw [members address, Memory.hashOf, Memory.hashOf, kept.node]
    · intro address waits member
      rcases mem_values_graft member with old | rfl
      · exact apart address waits old
      · exact notWaiting waits
    · rw [kept.size]
      exact inside
    · intro address member
      rw [if_pos isLinked, Finset.mem_erase] at member
      obtain ⟨last, outside, idle⟩ := alone address member.2
      refine ⟨?_, ?_, idle⟩
      · have same := linksSame address outside member.1
        have goal : ((memory.linkAt thisNode final).links address).nextPtr = none := by
          rw [same, last]
        exact goal
      · intro isThere
        rcases mem_values_graft isThere with old | same
        · exact outside old
        · exact member.1 same

end

inductive Cursor (memory : Memory) (stage : Stage) (hash : Nat) : Place → List Nat → Prop
  | start {rest : List Nat} (chain : memory.Chain (memory.nodehashtab hash) rest) :
      Cursor memory stage hash (.bucket hash) rest
  | behind {address : Nat} {rest : List Nat} (waits : address ∈ stage.waiting)
      (hashed : memory.hashOf address = some hash)
      (chain : memory.Chain (memory.links address).nextPtr rest) : Cursor memory stage hash (.next address) rest

section

variable {memory : Memory} {top : Option Nat} {stage : Stage} {hash : Nat} {np : Place} {rest : List Nat}

theorem Cursor.chain (cursor : Cursor memory stage hash np rest) : memory.Chain (memory.load np) rest := by
  cases cursor with
  | start chain | behind _ _ chain => exact chain

theorem Cursor.split (cursor : Cursor memory stage hash np rest) (represents : Represents memory top stage) :
    ∃ before, memory.Chain (memory.nodehashtab hash) (before ++ rest) ∧
      (∀ address, address ∈ before ++ rest ↔ address ∈ stage.waiting ∧ memory.hashOf address = some hash) ∧
      ((np = .bucket hash ∧ before = []) ∨ ∃ front address, np = .next address ∧ before = front ++ [address]) := by
  obtain ⟨bin, whole, members⟩ := represents.bins hash
  cases cursor with
  | start chain =>
    have same : bin = rest := whole.unique chain
    subst same
    exact ⟨[], whole, members, .inl ⟨rfl, rfl⟩⟩
  | @behind address rest waits hashed chain =>
    obtain ⟨front, after, rfl⟩ := append_of_mem ((members address).mpr ⟨waits, hashed⟩)
    obtain ⟨_, _, stored, tail⟩ := whole.suffix
    cases stored
    have same : after = rest := tail.unique chain
    subst same
    refine ⟨front ++ [address], ?_, ?_, .inr ⟨front, address, rfl, rfl⟩⟩ <;> rwa [append_assoc, singleton_append]

theorem Cursor.waits (cursor : Cursor memory stage hash np rest) (represents : Represents memory top stage) :
    ∀ address ∈ rest, address ∈ stage.waiting ∧ memory.hashOf address = some hash := by
  obtain ⟨before, _, members, _⟩ := cursor.split represents
  intro address member
  exact (members address).mp (mem_append_right before member)

variable {thisNode : Nat}

abbrev Memory.take (memory : Memory) (np : Place) (thisNode : Nat) : Memory :=
  (memory.store (memory.links thisNode).nextPtr np).setLinks thisNode ⟨none, none⟩

theorem take_spec (represents : Represents memory top stage) (cursor : Cursor memory stage hash np (thisNode :: rest)) :
    Represents (memory.take np thisNode) top ⟨stage.tree, stage.waiting.erase thisNode,
      insert thisNode stage.gone⟩ := by
  obtain ⟨before, whole, members, position⟩ := cursor.split represents
  obtain ⟨grown, bins, apart, inside, alone⟩ := represents
  have notThis : thisNode ∉ before ++ rest := (nodup_cons.mp (nodup_middle.mp whole.nodup)).1
  have thisWaits : thisNode ∈ stage.waiting ∧ memory.hashOf thisNode = some hash := (members thisNode).mp (by simp)
  -- only the node itself and the one in front of it change, and both are in this list
  have linksSame : ∀ address, address ≠ thisNode → np ≠ .next address →
      (memory.take np thisNode).links address = memory.links address := by
    intro address different outside
    have kept : (memory.store (memory.links thisNode).nextPtr np).links address = memory.links address := by
      apply links_store_of_ne
      rcases position with ⟨rfl, _⟩ | ⟨front, owner, rfl, _⟩
      · exact nofun
      · intro same
        exact outside (congrArg Place.next (Option.some.inj same))
    rw [← kept]
    exact update_of_ne different _ _
  have owners : ∀ address, np = .next address → address ∈ stage.waiting ∧ memory.hashOf address = some hash := by
    rintro address rfl
    rcases position with ⟨wrong, _⟩ | ⟨front, owner, same, rfl⟩
    · cases wrong
    · cases same
      exact (members address).mp (by simp)
  have outer : ∀ address, address ∉ stage.waiting → (memory.take np thisNode).links address = memory.links address := by
    intro address outside
    apply linksSame
    · rintro rfl
      exact outside thisWaits.1
    · intro same
      exact outside (owners address same).1
  have texts : (memory.take np thisNode).node = memory.node := by simp [Memory.setLinks]
  have sizes : (memory.take np thisNode).size = memory.size := by simp [Memory.setLinks]
  have tables : (memory.take np thisNode).nodeHashTable = memory.nodeHashTable := by simp [Memory.setLinks]
  refine ⟨grown.frame texts sizes tables fun address member => outer address fun waits => apart address waits member,
    ?_, ?_, ?_, ?_⟩
  · intro other
    simp only [Memory.hashOf, texts]
    by_cases same : other = hash
    · subst same
      refine ⟨before ++ rest, ?_, ?_⟩
      · rcases position with ⟨rfl, rfl⟩ | ⟨_, owner, rfl, rfl⟩
        · obtain ⟨_, _, stored, tail⟩ := whole
          cases stored
          have first : (memory.take (.bucket other) thisNode).nodehashtab other = (memory.links thisNode).nextPtr := by
            simp [Memory.store, Memory.setLinks]
          rw [first]
          refine chain_frame tail fun address member => linksSame address ?_ nofun
          rintro rfl
          exact notThis member
        · rw [append_assoc] at whole notThis ⊢
          have notOwner := (nodup_cons.mp (nodup_middle.mp whole.nodup)).1
          have different : owner ≠ thisNode := fun same => notThis (by simp [same])
          have changed : some ((memory.take (.next owner) thisNode).links owner) =
              some ⟨(memory.links thisNode).nextPtr, (memory.links owner).childPtr⟩ := by
            simp [Memory.store, Memory.setLinks, different]
          refine whole.unlink ?_ changed rfl rfl
          intro address member
          refine congrArg some (linksSame address ?_ ?_)
          · rintro rfl
            exact notThis (mem_append.mpr ((mem_append.mp member).imp_right (mem_cons_of_mem _)))
          · intro same
            cases same
            exact notOwner (mem_append.mpr ((mem_append.mp member).imp_right (mem_cons_of_mem _)))
      · intro address
        have without : address ∈ before ++ rest ↔ address ≠ thisNode ∧ address ∈ before ++ thisNode :: rest := by
          by_cases here : address = thisNode
          · subst here
            simpa using notThis
          · simp [here]
        rw [without, members, Finset.mem_erase, and_assoc]
        rfl
    · obtain ⟨bin, chain, others⟩ := bins other
      have elsewhere : ∀ address ∈ bin, memory.hashOf address ≠ some hash := by
        intro address member hashed
        rw [((others address).mp member).2] at hashed
        exact same (Option.some.inj hashed)
      refine ⟨bin, ?_, ?_⟩
      · have tableSame : (memory.take np thisNode).nodehashtab other = memory.nodehashtab other := by
          rcases position with ⟨rfl, _⟩ | ⟨_, _, rfl, _⟩
          · simp [Memory.store, Memory.setLinks, same]
          · rfl
        rw [tableSame]
        refine chain_frame chain fun address member => linksSame address ?_ ?_
        · rintro rfl
          exact elsewhere address member thisWaits.2
        · intro owned
          exact elsewhere address member (owners address owned).2
      · intro address
        rw [others address, Finset.mem_erase]
        constructor
        · rintro ⟨waits, hashed⟩
          refine ⟨⟨?_, waits⟩, hashed⟩
          rintro rfl
          exact elsewhere address ((others address).mpr ⟨waits, hashed⟩) thisWaits.2
        · rintro ⟨⟨_, waits⟩, hashed⟩
          exact ⟨waits, hashed⟩
  · intro address waits
    exact apart address (Finset.mem_of_mem_erase waits)
  · intro address waits
    rw [sizes]
    exact inside address (Finset.mem_of_mem_erase waits)
  · intro address member
    rcases Finset.mem_insert.mp member with rfl | old
    · refine ⟨?_, apart address thisWaits.1, Finset.notMem_erase address _⟩
      simp [Memory.setLinks]
    · obtain ⟨last, outside, idle⟩ := alone address old
      refine ⟨?_, outside, fun waits => idle (Finset.mem_of_mem_erase waits)⟩
      rw [outer address idle, last]

theorem takeNode_spec {root : Nat} (represents : Represents memory top stage)
    (cursor : Cursor memory stage hash np (thisNode :: rest)) (isRoot : root ∈ stage.tree.values)
    (refers : (memory.node thisNode).parentName = some (memory.node root).label) :
    ∃ after child next,
      (∀ fuel > memory.size, linkNode fuel (memory.take np thisNode) root thisNode = some (after, child)) ∧
      Kept memory after ∧ Step memory.node stage next ∧ child ∈ next.tree.values ∧
      (∀ address ∈ next.tree.values, address ∈ stage.tree.values ∨ address = child) ∧ Represents after top next := by
  have waits := (cursor.waits represents thisNode mem_cons_self).1
  have kept : Kept memory (memory.take np thisNode) := by
    refine ⟨?_, ?_, ?_⟩ <;> simp [Memory.setLinks]
  have notGone : thisNode ∉ stage.gone := fun member => (represents.alone thisNode member).2.2 waits
  have childless : ((memory.take np thisNode).links thisNode).childPtr = none := by simp [Memory.setLinks]
  obtain ⟨after, child, _, linked, keptAfter, rfl, isChild, own, represented⟩ :=
    linkNode_spec (take_spec represents cursor) isRoot (Finset.mem_insert_self thisNode stage.gone) childless
      (by rw [kept.node]; exact refers) (by rw [kept.size]; exact represents.inside thisNode waits)
  have sameSubid : (memory.take np thisNode).subid thisNode = (memory.node thisNode).subid := by
    rw [Memory.subid, kept.node]
  rw [kept.size] at linked
  refine ⟨after, child, _, linked, kept.trans keptAfter, ?_, isChild, ?_, represented⟩
  · refine ⟨root, thisNode, isRoot, waits, refers, by rw [sameSubid], rfl, ?_⟩
    simp only [Finset.erase_insert notGone]
  · intro _ member
    rcases mem_values_graft member with old | rfl
    · exact .inl old
    · exact .inr (own member).symm

end

end Tnm.Mib
