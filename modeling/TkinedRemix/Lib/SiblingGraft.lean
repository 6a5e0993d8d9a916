import TkinedRemix.Lib.SiblingTree

/-!
Adding a child to a node of a sibling tree, at the place its key has among its siblings.
-/

namespace Lib.SiblingTree

open List

variable {α β γ : Type}

def map (f : β → γ) : SiblingTree α β → SiblingTree α γ
  | nil => nil
  | node key value child next => node key (f value) (child.map f) (next.map f)

def values : SiblingTree α β → List β
  | nil => []
  | node _ value child next => value :: (child.values ++ next.values)

theorem paths_map (f : β → γ) (tree : SiblingTree α β) :
    (tree.map f).paths = tree.paths.map fun entry => (entry.1, f entry.2) := by
  induction tree with
  | nil => rfl
  | node _ _ _ _ childIh nextIh => simp [map, paths, childIh, nextIh]

theorem values_eq (tree : SiblingTree α β) : tree.values = tree.paths.map Prod.snd := by
  induction tree with
  | nil => rfl
  | node _ _ _ _ childIh nextIh => simp [values, paths, childIh, nextIh]

variable {tree : SiblingTree α β} {value : β}

theorem mem_values_iff : value ∈ tree.values ↔ ∃ path, (path, value) ∈ tree.paths := by
  simp [values_eq]

variable {key : α} {path : List α} {other : β} {lower after part : SiblingTree α β}

theorem mem_values_node :
    other ∈ (node key value lower after).values ↔ other = value ∨ other ∈ lower.values ∨ other ∈ after.values := by
  rw [values, mem_cons, mem_append]

theorem nodup_node : (node key value lower after).values.Nodup ↔ (value ∉ lower.values ∧ value ∉ after.values) ∧
    lower.values.Nodup ∧ after.values.Nodup ∧ lower.values.Disjoint after.values := by
  rw [values, nodup_cons, nodup_append', mem_append, not_or]

inductive Within (part : SiblingTree α β) : SiblingTree α β → Prop
  | here : Within part part
  | child {key : α} {value : β} {lower after : SiblingTree α β} :
      Within part lower → Within part (node key value lower after)
  | next {key : α} {value : β} {lower after : SiblingTree α β} :
      Within part after → Within part (node key value lower after)

theorem exists_within (member : value ∈ tree.values) : ∃ key child next, (node key value child next).Within tree := by
  induction tree with
  | nil => cases member
  | node key _ child next childIh nextIh =>
    rcases mem_values_node.mp member with rfl | below | later
    · exact ⟨key, child, next, .here⟩
    · obtain ⟨key, child, next, within⟩ := childIh below
      exact ⟨key, child, next, .child within⟩
    · obtain ⟨key, child, next, within⟩ := nextIh later
      exact ⟨key, child, next, .next within⟩

theorem Within.values (within : part.Within tree) : part.values.Sublist tree.values := by
  induction within with
  | here => exact Sublist.refl _
  | child _ ih => exact (ih.trans (sublist_append_left _ _)).cons _
  | next _ ih => exact (ih.trans (sublist_append_right _ _)).cons _

theorem Within.sorted [LinearOrder α] (within : part.Within tree) (sorted : tree.Sorted) : part.Sorted := by
  induction within with
  | here => exact sorted
  | child _ ih => exact ih sorted.1
  | next _ ih => exact ih sorted.2.2

theorem mem_paths_node : (path, other) ∈ (node key value lower after).paths ↔
      (path = [key] ∧ other = value) ∨ (∃ inner, (inner, other) ∈ lower.paths ∧ path = key :: inner) ∨
        (path, other) ∈ after.paths := by
  simp only [paths, cons_append, mem_cons, mem_append, List.mem_map, Prod.mk.injEq, Prod.exists]
  constructor
  · rintro (same | ⟨inner, _, member, rfl, rfl⟩ | later)
    · exact .inl same
    · exact .inr (.inl ⟨inner, member, rfl⟩)
    · exact .inr (.inr later)
  · rintro (same | ⟨inner, member, rfl⟩ | later)
    · exact .inl same
    · exact .inr (.inl ⟨inner, other, member, rfl, rfl⟩)
    · exact .inr (.inr later)

/-- The nodes bear the names their children refer to; the top level refers to `above`. -/
def Named (label reference : β → γ) (above : γ) : SiblingTree α β → Prop
  | nil => True
  | node _ value child next =>
    reference value = above ∧ child.Named label reference (label value) ∧ next.Named label reference above

variable {label reference : β → γ} {above : γ}

theorem Within.named (within : part.Within tree) (named : tree.Named label reference above) :
    ∃ own, part.Named label reference own := by
  induction within generalizing above with
  | here => exact ⟨above, named⟩
  | child _ ih => exact ih named.2.1
  | next _ ih => exact ih named.2.2

theorem Named.congr {label' reference' : β → γ} (named : tree.Named label reference above)
    (same : ∀ value ∈ tree.values, label' value = label value ∧ reference' value = reference value) :
    tree.Named label' reference' above := by
  induction tree generalizing above with
  | nil => trivial
  | node _ value _ _ childIh nextIh =>
    obtain ⟨own, below, later⟩ := named
    simp only [mem_values_node] at same
    obtain ⟨sameLabel, sameReference⟩ := same value (.inl rfl)
    refine ⟨sameReference.trans own, ?_, nextIh later fun other member => same other (.inr (.inr member))⟩
    rw [sameLabel]
    exact childIh below fun other member => same other (.inr (.inl member))

theorem Named.top (named : tree.Named label reference above) (member : ([key], value) ∈ tree.paths) :
    reference value = above := by
  induction tree with
  | nil => cases member
  | node _ _ child _ _ nextIh =>
    rcases mem_paths_node.mp member with ⟨_, rfl⟩ | ⟨_, below, shape⟩ | later
    · exact named.1
    · cases shape
      exact absurd rfl (paths_ne_nil child _ below)
    · exact nextIh named.2.2 later

theorem Named.parent (named : tree.Named label reference above) (member : (path ++ [key], value) ∈ tree.paths) :
    (path = [] ∧ reference value = above) ∨ ∃ parent, (path, parent) ∈ tree.paths ∧ reference value = label parent := by
  induction tree generalizing above path with
  | nil => cases member
  | node first entry child _ childIh nextIh =>
    rcases mem_paths_node.mp member with ⟨shape, rfl⟩ | ⟨_, below, shape⟩ | later
    · left
      exact ⟨(append_inj' (shape.trans (nil_append [first]).symm) rfl).1, named.1⟩
    · cases path with
      | nil =>
        cases shape
        exact absurd rfl (paths_ne_nil child _ below)
      | cons _ rest =>
        obtain ⟨rfl, rfl⟩ := cons.inj shape
        right
        rcases childIh named.2.1 below with ⟨rfl, refers⟩ | ⟨parent, isParent, refers⟩
        · exact ⟨entry, mem_paths_node.mpr (.inl ⟨rfl, rfl⟩), refers⟩
        · exact ⟨parent, mem_paths_node.mpr (.inr (.inl ⟨rest, isParent, rfl⟩)), refers⟩
    · rcases nextIh named.2.2 later with atTop | ⟨parent, isParent, refers⟩
      · exact .inl atTop
      · exact .inr ⟨parent, mem_paths_node.mpr (.inr (.inr isParent)), refers⟩

/-- One entry more, unless its path is taken. -/
def Extended (path : List α) (value : β) (before after : SiblingTree α β) : Prop :=
  (after.paths = before.paths ∧ ∃ other, (path, other) ∈ before.paths) ∨ after.paths ~ (path, value) :: before.paths

theorem Extended.child (extended : Extended path other lower part) :
    Extended (key :: path) other (node key value lower after) (node key value part after) := by
  rcases extended with ⟨same, taken, member⟩ | perm
  · exact .inl ⟨by rw [paths, paths, same], taken, mem_paths_node.mpr (.inr (.inl ⟨path, member, rfl⟩))⟩
  · have inner := perm.map fun entry : List α × β => (key :: entry.1, entry.2)
    exact .inr (((inner.append_right after.paths).cons ([key], value)).trans (.swap ..))

theorem Extended.next (extended : Extended path other after part) :
    Extended path other (node key value lower after) (node key value lower part) := by
  rcases extended with ⟨same, taken, member⟩ | perm
  · exact .inl ⟨by rw [paths, paths, same], taken, mem_paths_node.mpr (.inr (.inr member))⟩
  · exact .inr ((perm.append_left _).trans perm_middle)

section

variable (extended : Extended path value tree after)
include extended

theorem Extended.old {entry : List α × β} (member : entry ∈ tree.paths) : entry ∈ after.paths := by
  rcases extended with ⟨same, _⟩ | perm
  · rwa [same]
  · exact perm.mem_iff.mpr (mem_cons_of_mem _ member)

theorem Extended.new {inner : List α} (member : (inner, other) ∈ after.paths) :
    (inner, other) ∈ tree.paths ∨ (inner = path ∧ other = value) := by
  rcases extended with ⟨same, _⟩ | perm
  · exact .inl (same ▸ member)
  · rcases mem_cons.mp (perm.mem_iff.mp member) with new | old
    · exact .inr (Prod.mk.inj new)
    · exact .inl old

theorem Extended.taken : ∃ other, (path, other) ∈ after.paths := by
  rcases extended with ⟨same, taken⟩ | perm
  · rwa [same]
  · exact ⟨value, perm.mem_iff.mpr mem_cons_self⟩

theorem Extended.nodup (nodup : tree.values.Nodup) (fresh : value ∉ tree.values) : after.values.Nodup := by
  rw [values_eq] at nodup fresh ⊢
  rcases extended with ⟨same, _⟩ | perm
  · rwa [same]
  · exact (perm.map Prod.snd).nodup_iff.mpr (nodup_cons.mpr ⟨fresh, nodup⟩)

end

variable [LinearOrder α]

def place (key : α) (value : β) : SiblingTree α β → SiblingTree α β
  | nil => node key value nil nil
  | node first other child next =>
    if first < key then node first other child (next.place key value)
    else if first = key then node first other child next
    else node key value nil (node first other child next)

theorem mem_keys_place {other : α} : other ∈ (tree.place key value).keys → other = key ∨ other ∈ tree.keys := by
  fun_induction place key value tree with
  | case1 => simp [keys]
  | case2 _ _ _ _ _ nextIh =>
    intro member
    rcases mem_cons.mp member with same | later
    · exact .inr (by simp [keys, same])
    · rcases nextIh later with new | old
      · exact .inl new
      · exact .inr (by simp [keys, old])
  | case3 => exact .inr
  | case4 => exact mem_cons.mp

theorem Sorted.place (sorted : tree.Sorted) (key : α) (value : β) : (tree.place key value).Sorted := by
  fun_induction SiblingTree.place key value tree with
  | case1 => exact ⟨trivial, fun _ member => (not_mem_nil member).elim, trivial⟩
  | case2 _ _ _ _ smaller nextIh =>
    refine ⟨sorted.1, ?_, nextIh sorted.2.2⟩
    intro other member
    rcases mem_keys_place member with rfl | old
    · exact smaller
    · exact sorted.2.1 other old
  | case3 => exact sorted
  | case4 first _ _ _ notSmaller different =>
    have larger : key < first := lt_of_le_of_ne (not_lt.mp notSmaller) (Ne.symm different)
    refine ⟨trivial, ?_, sorted⟩
    intro other member
    rcases mem_cons.mp member with rfl | later
    · exact larger
    · exact larger.trans (sorted.2.1 other later)

theorem extended_place (tree : SiblingTree α β) (key : α) (value : β) :
    Extended [key] value tree (tree.place key value) := by
  fun_induction place key value tree with
  | case1 | case4 => exact .inr (.refl _)
  | case2 _ _ _ _ _ nextIh => exact nextIh.next
  | case3 entry => exact .inl ⟨rfl, entry, mem_paths_node.mpr (.inl ⟨rfl, rfl⟩)⟩

theorem Named.place (named : tree.Named label reference above) (key : α) (refers : reference value = above) :
    (tree.place key value).Named label reference above := by
  fun_induction SiblingTree.place key value tree with
  | case1 | case4 => exact ⟨refers, trivial, named⟩
  | case2 _ _ _ _ _ nextIh => exact ⟨named.1, named.2.1, nextIh named.2.2⟩
  | case3 => exact named

variable {parent : β}

theorem mem_paths_child {first : α} {entry : β}
    (sorted : (node first entry lower after).Sorted) (member : (path, parent) ∈ (node first entry lower after).paths)
    (isChild : (path ++ [key], value) ∈ (node first entry lower after).paths) :
    (path = [first] ∧ parent = entry ∧ ([key], value) ∈ lower.paths) ∨
      (∃ rest, path = first :: rest ∧ (rest, parent) ∈ lower.paths ∧ (rest ++ [key], value) ∈ lower.paths) ∨
      ((path, parent) ∈ after.paths ∧ (path ++ [key], value) ∈ after.paths) := by
  -- the first key tells the siblings apart
  have later : ∀ rest other, (first :: rest, other) ∉ after.paths := by
    intro rest _ inNext
    obtain ⟨head, _, shape, known⟩ := paths_head_mem after _ inNext
    cases shape
    exact lt_irrefl _ (sorted.2.1 _ known)
  rcases mem_paths_node.mp member with ⟨rfl, rfl⟩ | ⟨rest, deeper, rfl⟩ | inNext
  · rcases mem_paths_node.mp isChild with ⟨wrong, _⟩ | ⟨rest, inside, shape⟩ | wrong
    · cases wrong
    · cases shape
      exact .inl ⟨rfl, rfl, inside⟩
    · exact absurd wrong (later _ _)
  · rcases mem_paths_node.mp isChild with ⟨wrong, _⟩ | ⟨_, inside, shape⟩ | wrong
    · have empty := (cons.inj wrong).2
      cases rest <;> cases empty
    · cases shape
      exact .inr (.inl ⟨rest, rfl, deeper, inside⟩)
    · exact absurd wrong (later _ _)
  · obtain ⟨head, _, shape, known⟩ := paths_head_mem after _ inNext
    have different : first ≠ head := ne_of_lt (sorted.2.1 head known)
    cases shape
    rcases mem_paths_node.mp isChild with ⟨wrong, _⟩ | ⟨_, _, shape⟩ | both
    · exact absurd (cons.inj wrong).1.symm different
    · exact absurd (cons.inj shape).1.symm different
    · exact .inr (.inr ⟨inNext, both⟩)

theorem Named.child (sorted : tree.Sorted) (named : tree.Named label reference above)
    (member : (path, parent) ∈ tree.paths) (isChild : (path ++ [key], value) ∈ tree.paths) :
    reference value = label parent := by
  induction tree generalizing above path with
  | nil => cases member
  | node _ _ _ _ childIh nextIh =>
    rcases mem_paths_child sorted member isChild with ⟨_, rfl, inside⟩ | ⟨_, _, deeper, inside⟩ | ⟨later, inside⟩
    · exact named.2.1.top inside
    · exact childIh sorted.1 named.2.1 deeper inside
    · exact nextIh sorted.2.2 named.2.2 later inside

variable [DecidableEq β]

def graft (parent : β) (key : α) (value : β) : SiblingTree α β → SiblingTree α β
  | nil => nil
  | node first entry child next =>
    node first entry (if entry = parent then child.place key value else child.graft parent key value)
      (next.graft parent key value)

theorem keys_graft (tree : SiblingTree α β) (parent : β) (key : α) (value : β) :
    (tree.graft parent key value).keys = tree.keys := by
  induction tree with
  | nil => rfl
  | node _ _ _ _ _ nextIh => simp [graft, keys, nextIh]

theorem Sorted.graft (sorted : tree.Sorted) (parent : β) (key : α) (value : β) :
    (tree.graft parent key value).Sorted := by
  induction tree with
  | nil => trivial
  | node _ _ _ _ childIh nextIh =>
    obtain ⟨childSorted, _, nextSorted⟩ := sorted
    refine ⟨?_, by rwa [keys_graft], nextIh nextSorted⟩
    split
    · exact childSorted.place key value
    · exact childIh childSorted

theorem paths_graft (parent : β) (key : α) (value : β) (member : (path, other) ∈ tree.paths) :
    (path, other) ∈ (tree.graft parent key value).paths := by
  induction tree generalizing path with
  | nil => cases member
  | node _ _ _ _ childIh nextIh =>
    rw [graft, mem_paths_node]
    rcases mem_paths_node.mp member with same | ⟨inner, below, rfl⟩ | later
    · exact .inl same
    · refine .inr (.inl ⟨inner, ?_, rfl⟩)
      split
      · exact (extended_place ..).old below
      · exact childIh below
    · exact .inr (.inr (nextIh later))

theorem mem_paths_graft (member : (path, other) ∈ (tree.graft parent key value).paths) :
    (path, other) ∈ tree.paths ∨ (other = value ∧ ∃ above, (above, parent) ∈ tree.paths ∧ path = above ++ [key]) := by
  induction tree generalizing path with
  | nil => cases member
  | node first _ _ next childIh nextIh =>
    rcases mem_paths_node.mp member with same | ⟨inner, below, rfl⟩ | later
    · exact .inl (mem_paths_node.mpr (.inl same))
    · split at below
      next here =>
        rcases (extended_place ..).new below with old | ⟨rfl, rfl⟩
        · exact .inl (mem_paths_node.mpr (.inr (.inl ⟨inner, old, rfl⟩)))
        · exact .inr ⟨rfl, [first], mem_paths_node.mpr (.inl ⟨rfl, here.symm⟩), rfl⟩
      next =>
        rcases childIh below with old | ⟨new, above, known, rfl⟩
        · exact .inl (mem_paths_node.mpr (.inr (.inl ⟨inner, old, rfl⟩)))
        · exact .inr ⟨new, first :: above, mem_paths_node.mpr (.inr (.inl ⟨above, known, rfl⟩)), rfl⟩
    · rcases nextIh later with old | ⟨new, above, known, rfl⟩
      · exact .inl (mem_paths_node.mpr (.inr (.inr old)))
      · exact .inr ⟨new, above, mem_paths_node.mpr (.inr (.inr known)), rfl⟩

theorem mem_values_graft (member : other ∈ (tree.graft parent key value).values) :
    other ∈ tree.values ∨ other = value := by
  obtain ⟨path, member⟩ := mem_values_iff.mp member
  rcases mem_paths_graft member with old | ⟨new, _⟩
  · exact .inl (mem_values_iff.mpr ⟨path, old⟩)
  · exact .inr new

theorem values_graft (parent : β) (key : α) (value : β) (member : other ∈ tree.values) :
    other ∈ (tree.graft parent key value).values := by
  obtain ⟨path, member⟩ := mem_values_iff.mp member
  exact mem_values_iff.mpr ⟨path, paths_graft parent key value member⟩

theorem graft_of_notMem (absent : parent ∉ tree.values) (key : α) (value : β) : tree.graft parent key value = tree := by
  induction tree with
  | nil => rfl
  | node _ _ _ _ childIh nextIh =>
    rw [mem_values_node, not_or, not_or] at absent
    rw [graft, if_neg (Ne.symm absent.1), childIh absent.2.1, nextIh absent.2.2]

theorem extended_graft (nodup : tree.values.Nodup) (member : (path, parent) ∈ tree.paths) (key : α) (value : β) :
    Extended (path ++ [key]) value tree (tree.graft parent key value) := by
  induction tree generalizing path with
  | nil => cases member
  | node _ entry child _ childIh nextIh =>
    obtain ⟨head, childNodup, nextNodup, apart⟩ := nodup_node.mp nodup
    rw [graft]
    rcases mem_paths_node.mp member with ⟨rfl, rfl⟩ | ⟨inner, below, rfl⟩ | later
    · rw [if_pos rfl, graft_of_notMem head.2]
      exact (extended_place child key value).child
    · have inside := mem_values_iff.mpr ⟨inner, below⟩
      have different : entry ≠ parent := fun same => head.1 (same ▸ inside)
      rw [if_neg different, graft_of_notMem (apart inside)]
      exact (childIh childNodup below).child
    · have inside := mem_values_iff.mpr ⟨path, later⟩
      have different : entry ≠ parent := fun same => head.2 (same ▸ inside)
      rw [if_neg different, graft_of_notMem fun both => apart both inside]
      exact (nextIh nextNodup later).next

theorem nodup_graft (nodup : tree.values.Nodup) (fresh : value ∉ tree.values) (parent : β) (key : α) :
    (tree.graft parent key value).values.Nodup := by
  by_cases isParent : parent ∈ tree.values
  · obtain ⟨_, member⟩ := mem_values_iff.mp isParent
    exact (extended_graft nodup member key value).nodup nodup fresh
  · rwa [graft_of_notMem isParent]

theorem Named.graft (named : tree.Named label reference above) (refers : reference value = label parent) (key : α) :
    (tree.graft parent key value).Named label reference above := by
  induction tree generalizing above with
  | nil => trivial
  | node _ _ _ next childIh nextIh =>
    obtain ⟨own, below, later⟩ := named
    refine ⟨own, ?_, nextIh later⟩
    split
    next same => exact below.place key (same ▸ refers)
    next => exact childIh below

end Lib.SiblingTree
