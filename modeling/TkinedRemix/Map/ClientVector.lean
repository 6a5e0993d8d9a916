import Mathlib

/-!
The vectors of `tnmUtil.c`. An element is an address with zero for null, and an access outside the allocated space
has no result.
-/

namespace Tnm

open List Option

structure TnmVector where
  elements : List Nat
  size : Nat
  spaceAvl : Nat

def staticSize : Nat := 8

def tnmVectorInit : TnmVector := ⟨replicate (staticSize + 1) 0, 0, staticSize⟩

def write (elements : List Nat) (i clientData : Nat) : Option (List Nat) :=
  if i < elements.length then some (elements.set i clientData) else none

def copyElements (elements : List Nat) : Nat → Nat → List Nat → Option (List Nat)
  | 0, _, dynamicSpace => some dynamicSpace
  | left + 1, i, dynamicSpace => do
      let dynamicSpace ← write dynamicSpace i (← elements[i]?)
      copyElements elements left (i + 1) dynamicSpace

def growVector (vector : TnmVector) : Option TnmVector :=
  if vector.size = vector.spaceAvl then do
    let spaceAvl := vector.spaceAvl + staticSize
    let elements ← copyElements vector.elements vector.size 0 (replicate (spaceAvl + 1) 0)
    return ⟨elements, vector.size, spaceAvl⟩
  else some vector

def tnmVectorAdd (vector : TnmVector) (clientData : Nat) : Option TnmVector := do
  let vector ← growVector vector
  let elements ← write vector.elements vector.size clientData
  return ⟨elements, vector.size + 1, vector.spaceAvl⟩

def findElement (elements : List Nat) (clientData : Nat) : Nat → Nat → Option (Option Nat)
  | 0, _ => some none
  | left + 1, i => do
      if (← elements[i]?) = clientData then some (some i) else findElement elements clientData left (i + 1)

/-- The loop also moves the null behind the last element. -/
def moveElements : Nat → Nat → List Nat → Option (List Nat)
  | 0, _, elements => some elements
  | left + 1, i, elements => do
      let elements ← write elements i (← elements[i + 1]?)
      moveElements left (i + 1) elements

def tnmVectorDelete (vector : TnmVector) (clientData : Nat) : Option TnmVector := do
  match ← findElement vector.elements clientData vector.size 0 with
  | none => some vector
  | some i => do
      let elements ← moveElements (vector.size - i) i vector.elements
      return ⟨elements, vector.size - 1, vector.spaceAvl⟩

inductive VectorCall where
  | add (clientData : Nat)
  | delete (clientData : Nat)

def vectorCall (vector : TnmVector) : VectorCall → Option TnmVector
  | .add clientData => tnmVectorAdd vector clientData
  | .delete clientData => tnmVectorDelete vector clientData

/-- What a call does to the list that the vector stores. -/
def listCall (list : List Nat) : VectorCall → List Nat
  | .add clientData => list ++ [clientData]
  | .delete clientData => list.erase clientData

/-- The vector with the list and `free` more places, all of them null. -/
def storing (list : List Nat) (free : Nat) : TnmVector :=
  ⟨list ++ replicate (free + 1) 0, list.length, list.length + free⟩

theorem read_append (front : List Nat) (old : Nat) (back : List Nat) :
    (front ++ old :: back)[front.length]? = some old := by
  simp

theorem write_append (front : List Nat) (old : Nat) (back : List Nat) (clientData : Nat) :
    write (front ++ old :: back) front.length clientData = some (front ++ clientData :: back) := by
  simp [write]

theorem copyElements_append (list rest : List Nat) (free : Nat) : ∀ front, copyElements (front ++ (list ++ rest))
    list.length front.length (front ++ replicate (list.length + free) 0) =
      some (front ++ (list ++ replicate free 0)) := by
  induction list with
  | nil => simp [copyElements]
  | cons first list ih =>
    intro front
    have next := ih (front ++ [first])
    rw [length_cons, Nat.add_right_comm, replicate_succ, copyElements]
    simpa [write_append] using next

theorem findElement_append {clientData : Nat} {list : List Nat} (absent : clientData ∉ list) (rest : List Nat)
    (left : Nat) :
    ∀ front : List Nat, findElement (front ++ (list ++ rest)) clientData (list.length + left) front.length =
      findElement (front ++ (list ++ rest)) clientData left (front ++ list).length := by
  induction list with
  | nil => simp
  | cons first list ih =>
    intro front
    obtain ⟨different, later⟩ := not_or.mp (mem_cons.not.mp absent)
    have next := ih later (front ++ [first])
    rw [length_cons, Nat.add_right_comm, findElement, cons_append, read_append]
    simpa [Ne.symm different] using next

theorem moveElements_append (list : List Nat) (free : Nat) : ∀ front old,
    moveElements (list.length + 1) front.length (front ++ old :: (list ++ replicate (free + 1) 0)) =
      some (front ++ (list ++ replicate (free + 2) 0)) := by
  induction list with
  | nil => simp [moveElements, replicate_succ, write_append]
  | cons first list ih =>
    intro front old
    have next := ih (front ++ [first]) first
    rw [moveElements]
    simpa [write_append] using next

theorem growVector_storing (list : List Nat) (free : Nat) :
    ∃ more, growVector (storing list free) = some (storing list (more + 1)) := by
  cases free with
  | zero =>
    have copied := copyElements_append list [0] (staticSize + 1) []
    simp only [nil_append, length_nil] at copied
    refine ⟨staticSize - 1, ?_⟩
    simp [growVector, storing, Nat.add_assoc, copied]
    rfl
  | succ free => exact ⟨free, by simp [growVector, storing]⟩

theorem tnmVectorAdd_storing (list : List Nat) (free clientData : Nat) :
    ∃ more, tnmVectorAdd (storing list free) clientData = some (storing (list ++ [clientData]) more) := by
  obtain ⟨more, grown⟩ := growVector_storing list free
  refine ⟨more, ?_⟩
  rw [tnmVectorAdd, grown]
  simp [storing, replicate_succ, write_append, Nat.add_right_comm, Nat.add_assoc]

theorem tnmVectorDelete_storing (list : List Nat) (free clientData : Nat) :
    ∃ more, tnmVectorDelete (storing list free) clientData = some (storing (list.erase clientData) more) := by
  rw [tnmVectorDelete, storing]
  by_cases present : clientData ∈ list
  · obtain ⟨front, back, absent, rfl, erased⟩ := exists_erase_eq present
    have found := findElement_append absent (clientData :: (back ++ replicate (free + 1) 0)) (back.length + 1) []
    rw [nil_append, nil_append, findElement, read_append, length_nil] at found
    refine ⟨free + 1, ?_⟩
    rw [erased, append_assoc, cons_append, length_append, length_cons]
    simp [found, moveElements_append, storing]
    omega
  · have found := findElement_append present (replicate (free + 1) 0) 0 []
    refine ⟨free, ?_⟩
    rw [erase_of_not_mem present]
    simp only [nil_append, length_nil, Nat.add_zero] at found
    simp [found, findElement, storing]

/-- All calls stay inside the allocated space, and the vector holds the list and a null behind it. -/
theorem vector_stores (calls : List VectorCall) : ∃ vector, calls.foldlM vectorCall tnmVectorInit = some vector ∧
    vector.elements.take vector.size = calls.foldl listCall [] ∧ vector.elements[vector.size]? = some 0 ∧
    vector.size ≤ vector.spaceAvl ∧ vector.elements.length = vector.spaceAvl + 1 := by
  have run : ∀ list free, ∃ more, calls.foldlM vectorCall (storing list free) =
      some (storing (calls.foldl listCall list) more) := by
    induction calls with
    | nil => exact fun _ free => ⟨free, rfl⟩
    | cons call _ ih =>
      intro list free
      have ⟨more, done⟩ : ∃ more, vectorCall (storing list free) call = some (storing (listCall list call) more) := by
        cases call with
        | add clientData => exact tnmVectorAdd_storing list free clientData
        | delete clientData => exact tnmVectorDelete_storing list free clientData
      rw [foldlM_cons, done]
      exact ih _ more
  obtain ⟨more, done⟩ := run [] staticSize
  exact ⟨_, done, by simp [storing], by simp [storing], by simp [storing], by simp [storing]; omega⟩

end Tnm
