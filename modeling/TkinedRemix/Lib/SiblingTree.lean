import Mathlib

/-!
Trees stored as first child and next sibling links. Sorted sibling lists make the listing of all paths
increasing.
-/

namespace Lib

open List

inductive SiblingTree (α β : Type) where
  | nil
  | node (key : α) (value : β) (child next : SiblingTree α β)
deriving Repr, DecidableEq

namespace SiblingTree

variable {α β : Type}

def paths : SiblingTree α β → List (List α × β)
  | nil => []
  | node key value child next =>
    ([key], value) :: (child.paths.map fun entry => (key :: entry.1, entry.2)) ++ next.paths

def keys : SiblingTree α β → List α
  | nil => []
  | node key _ _ next => key :: next.keys

theorem paths_head_mem (tree : SiblingTree α β) :
    ∀ entry ∈ tree.paths, ∃ key rest, entry.1 = key :: rest ∧ key ∈ tree.keys := by
  induction tree with
  | nil => simp [paths]
  | node key _ _ _ _ nextIh =>
    intro entry member
    simp only [paths, cons_append, mem_cons, mem_append, List.mem_map] at member
    rcases member with rfl | ⟨inner, _, rfl⟩ | later
    · exact ⟨key, [], rfl, by simp [keys]⟩
    · exact ⟨key, inner.1, rfl, by simp [keys]⟩
    · obtain ⟨head, rest, shape, known⟩ := nextIh entry later
      exact ⟨head, rest, shape, by simp [keys, known]⟩

theorem paths_ne_nil (tree : SiblingTree α β) : ∀ entry ∈ tree.paths, entry.1 ≠ [] := by
  intro entry member
  obtain ⟨_, _, shape, _⟩ := paths_head_mem tree entry member
  simp [shape]

section

variable [LinearOrder α]

def Sorted : SiblingTree α β → Prop
  | nil => True
  | node key _ child next => child.Sorted ∧ (∀ other ∈ next.keys, key < other) ∧ next.Sorted

theorem paths_increasing (tree : SiblingTree α β) (sorted : tree.Sorted) :
    tree.paths.Pairwise fun first second => first.1 < second.1 := by
  induction tree with
  | nil => exact List.Pairwise.nil
  | node key _ child next childIh nextIh =>
    obtain ⟨childSorted, above, nextSorted⟩ := sorted
    -- Everything listed after the child block starts with a larger key.
    have later : ∀ entry ∈ next.paths, ∀ rest, key :: rest < entry.1 := by
      intro entry member _
      obtain ⟨head, _, shape, known⟩ := paths_head_mem next entry member
      rw [shape, cons_lt_cons_iff]
      exact .inl (above head known)
    have block : (child.paths.map fun entry => (key :: entry.1, entry.2)).Pairwise
        fun first second => first.1 < second.1 := by
      rw [pairwise_map]
      exact (childIh childSorted).imp fun smaller => cons_lt_cons_iff.mpr (.inr ⟨rfl, smaller⟩)
    simp only [paths, cons_append, pairwise_cons, pairwise_append]
    refine ⟨?_, block, nextIh nextSorted, ?_⟩
    · intro entry member
      simp only [mem_append, List.mem_map] at member
      rcases member with ⟨inner, innerMember, rfl⟩ | afterwards
      · cases shape : inner.1 with
        | nil => exact absurd shape (paths_ne_nil child inner innerMember)
        | cons => simp
      · exact later entry afterwards []
    · intro _ member other otherMember
      simp only [List.mem_map] at member
      obtain ⟨inner, _, rfl⟩ := member
      exact later other otherMember inner.1

end

end SiblingTree

end Lib
