import Mathlib

/-!
Insertion sort by a relation that need not be an order: each element is put in front of the first one it beats.
-/

namespace Lib

open List

variable {α : Type} (beats : α → α → Prop) [DecidableRel beats]

def insertAll (elements : List α) : List α :=
  elements.foldl (fun sorted element => sorted.orderedInsert beats element) []

/-- The elements to which a chain leads, each element of it beating the next one. -/
def Reaches (elements : List α) : α → α → Prop :=
  Relation.ReflTransGen fun first second => beats first second ∧ second ∈ elements

/-- `upper` beats all that `lower` reaches, and is none of it. -/
def Dominates (elements : List α) (lower upper : α) : Prop :=
  ∀ other, Reaches beats elements lower other → other ≠ upper ∧ beats upper other

variable {beats} {elements : List α} {element : α}

theorem insertAll_eq (elements : List α) : insertAll beats elements = elements.reverse.insertionSort beats :=
  foldl_eq_foldr_reverse

theorem insertAll_perm (elements : List α) : insertAll beats elements ~ elements := by
  rw [insertAll_eq]
  exact (perm_insertionSort beats _).trans (reverse_perm _)

theorem mem_insertAll : element ∈ insertAll beats elements ↔ element ∈ elements := (insertAll_perm _).mem_iff

variable {upper : α} {sorted : List α}

theorem insertAll_append (first : List α) (element : α) :
    insertAll beats (first ++ [element]) = (insertAll beats first).orderedInsert beats element :=
  foldl_append

theorem orderedInsert_loses (loses : ∀ other ∈ sorted, ¬ beats element other) :
    sorted.orderedInsert beats element = sorted ++ [element] := by
  induction sorted with
  | nil => rfl
  | cons _ _ ih =>
    obtain ⟨first, later⟩ := forall_mem_cons.mp loses
    rw [orderedInsert_cons, if_neg first, ih later, cons_append]

theorem orderedInsert_last {front : List α} (beaten : ∃ other ∈ front ++ [upper], beats element other) :
    ∃ others, (front ++ [upper]).orderedInsert beats element = others ++ [upper] := by
  induction front with
  | nil =>
    obtain ⟨_, member, wins⟩ := beaten
    cases mem_singleton.mp member
    exact ⟨[element], by simp [wins]⟩
  | cons first front ih =>
    rw [cons_append, orderedInsert_cons]
    split
    next => exact ⟨element :: first :: front, rfl⟩
    next loses =>
      obtain ⟨other, member, wins⟩ := beaten
      rcases mem_cons.mp member with rfl | later
      · exact absurd wins loses
      · obtain ⟨others, same⟩ := ih ⟨other, later, wins⟩
        exact ⟨first :: others, by rw [same, cons_append]⟩

variable [DecidableEq α]

theorem takeWhile_orderedInsert {other : α}
    (member : other ∈ (sorted.orderedInsert beats element).takeWhile (· ≠ upper)) :
    other = element ∨ other ∈ sorted.takeWhile (· ≠ upper) := by
  induction sorted with
  | nil =>
    have inside := takeWhile_subset _ member
    exact .inl (by simpa using inside)
  | cons _ _ ih =>
    rw [orderedInsert_cons] at member
    split at member
    next =>
      rw [takeWhile_cons] at member
      split at member
      next => exact mem_cons.mp member
      next => cases member
    next =>
      rw [takeWhile_cons] at member ⊢
      split at member
      next passed =>
        rw [if_pos passed]
        rcases mem_cons.mp member with rfl | later
        · exact .inr mem_cons_self
        · rcases ih later with same | before
          · exact .inl same
          · exact .inr (mem_cons_of_mem _ before)
      next => cases member

theorem takeWhile_inserted {other : α} (absent : upper ∉ sorted)
    (member : other ∈ (sorted.orderedInsert beats upper).takeWhile (· ≠ upper)) : ¬ beats upper other := by
  induction sorted with
  | nil => simp at member
  | cons _ _ ih =>
    rw [mem_cons, not_or] at absent
    rw [orderedInsert_cons] at member
    split at member
    next => simp at member
    next loses =>
      rw [takeWhile_cons] at member
      split at member
      next =>
        rcases mem_cons.mp member with rfl | later
        · exact loses
        · exact ih absent.2 later
      next => cases member

theorem takeWhile_behind (present : upper ∈ sorted) (loses : ¬ beats element upper)
    (harmless : ∀ other ∈ sorted.takeWhile (· ≠ upper), ¬ beats element other) :
    (sorted.orderedInsert beats element).takeWhile (· ≠ upper) = sorted.takeWhile (· ≠ upper) := by
  induction sorted with
  | nil => cases present
  | cons first sorted ih =>
    by_cases isUpper : first = upper
    · rw [orderedInsert_cons, if_neg (isUpper ▸ loses)]
      simp [isUpper]
    · have front : first ∈ (first :: sorted).takeWhile (· ≠ upper) := by
        rw [takeWhile_cons, if_pos (by simpa using isUpper)]
        exact mem_cons_self
      have rest := ih ((mem_cons.mp present).resolve_left (Ne.symm isUpper)) fun other before => by
        apply harmless
        rw [takeWhile_cons, if_pos (by simpa using isUpper)]
        exact mem_cons_of_mem _ before
      rw [orderedInsert_cons, if_neg (harmless first front), takeWhile_cons, takeWhile_cons, rest]

/-- Nothing in front of `upper` is reached from `lower`. -/
def Shielded (beats : α → α → Prop) (elements : List α) (lower upper : α) (sorted : List α) : Prop :=
  upper ∈ sorted → ∀ other ∈ sorted.takeWhile (· ≠ upper), ¬ Reaches beats elements lower other

variable {lower : α}

theorem orderedInsert_shielded (dominates : Dominates beats elements lower upper)
    (known : ∀ other ∈ sorted, other ∈ elements) (shielded : Shielded beats elements lower upper sorted) :
    Shielded beats elements lower upper (sorted.orderedInsert beats element) := by
  intro inserted other front
  have before := takeWhile_orderedInsert front
  by_cases present : upper ∈ sorted
  · by_cases low : Reaches beats elements lower element
    · -- it is put behind `upper`, so what stands in front has not changed
      have reached : ∀ other ∈ sorted, beats element other → Reaches beats elements lower other :=
        fun other member beaten => low.tail ⟨beaten, known other member⟩
      rw [takeWhile_behind present (fun beaten => (dominates upper (reached upper present beaten)).1 rfl)
        fun other stands beaten =>
          shielded present other stands (reached other (takeWhile_subset _ stands) beaten)] at front
      exact shielded present other front
    · rcases before with rfl | stands
      · exact low
      · exact shielded present other stands
  · have isUpper : element = upper := by
      rcases (mem_orderedInsert beats).mp inserted with same | member
      · exact same.symm
      · exact absurd member present
    subst isUpper
    exact fun reached => takeWhile_inserted present front (dominates other reached).2

theorem insertAll_shielded (dominates : Dominates beats elements lower upper) {order : List α}
    (known : ∀ other ∈ order, other ∈ elements) :
    Shielded beats elements lower upper (insertAll beats order) := by
  have general : ∀ rest : List α, (∀ other ∈ rest, other ∈ elements) →
      Shielded beats elements lower upper (rest.insertionSort beats) := by
    intro rest known
    induction rest with
    | nil =>
      intro absent
      cases absent
    | cons _ _ ih =>
      obtain ⟨_, later⟩ := forall_mem_cons.mp known
      exact orderedInsert_shielded dominates
        (fun other member => later other ((mem_insertionSort beats).mp member)) (ih later)
  rw [insertAll_eq]
  exact general _ fun other member => known other (mem_reverse.mp member)

/-- Elements that beat one of those before them are put in front of `upper`, until no such element is left. -/
theorem insertAll_gathers (first rest : List α) (last : ∃ front, insertAll beats first = front ++ [upper]) :
    ∃ more others, more ++ others ~ rest ∧ (∃ front, insertAll beats (first ++ more) = front ++ [upper]) ∧
      ∀ element ∈ others, ∀ other ∈ first ++ more, ¬ beats element other := by
  induction size : rest.length generalizing first rest with
  | zero =>
    refine ⟨[], [], ?_, by simpa using last, by simp⟩
    simp [length_eq_zero_iff.mp size]
  | succ count ih =>
    by_cases wins : ∃ element ∈ rest, ∃ other ∈ first, beats element other
    · obtain ⟨element, member, other, earlier, wins⟩ := wins
      obtain ⟨front, sorted⟩ := last
      have next : ∃ front, insertAll beats (first ++ [element]) = front ++ [upper] := by
        rw [insertAll_append, sorted]
        exact orderedInsert_last ⟨other, sorted ▸ mem_insertAll.mpr earlier, wins⟩
      obtain ⟨more, others, perm, ends, left⟩ := ih (first ++ [element]) (rest.erase element) next
        (by rw [length_erase_of_mem member, size, Nat.add_sub_cancel])
      rw [append_assoc, singleton_append] at ends left
      exact ⟨element :: more, others, (perm.cons element).trans (perm_cons_erase member).symm, ends, left⟩
    · push Not at wins
      exact ⟨[], rest, Perm.refl _, by simpa using last, by simpa using wins⟩

theorem takeWhile_kept {other : α} (different : element ≠ upper)
    (member : other ∈ sorted.takeWhile (· ≠ upper)) :
    other ∈ (sorted.orderedInsert beats element).takeWhile (· ≠ upper) := by
  induction sorted with
  | nil => cases member
  | cons first sorted ih =>
    rw [orderedInsert_cons]
    split
    next =>
      rw [takeWhile_cons, if_pos (by simpa using different)]
      exact mem_cons_of_mem _ member
    next =>
      rw [takeWhile_cons] at member ⊢
      split at member
      next passed =>
        rw [if_pos passed]
        rcases mem_cons.mp member with rfl | later
        · exact mem_cons_self
        · exact mem_cons_of_mem _ (ih later)
      next => cases member

theorem mem_takeWhile_of_find? {holds : α → Bool} {first : α} (upperHolds : holds upper = true)
    (found : sorted.find? holds = some first) (different : first ≠ upper) :
    first ∈ sorted.takeWhile (· ≠ upper) := by
  obtain ⟨_, front, _, rfl, earlier⟩ := find?_eq_some_iff_append.mp found
  rw [takeWhile_append_of_pos, takeWhile_cons, if_pos (by simpa using different)]
  · simp
  · intro other member
    rw [decide_eq_true_eq]
    rintro rfl
    have fails := earlier other member
    simp [upperHolds] at fails

theorem find?_ne_of_mem_takeWhile {holds : α → Bool} {other : α} (otherHolds : holds other = true)
    (member : other ∈ sorted.takeWhile (· ≠ upper)) : sorted.find? holds ≠ some upper := by
  intro found
  obtain ⟨_, front, rest, rfl, earlier⟩ := find?_eq_some_iff_append.mp found
  have inFront : other ∈ front := by
    rw [takeWhile_append] at member
    split at member
    next => simpa using member
    next => exact takeWhile_subset _ member
  have fails := earlier other inFront
  simp [otherHolds] at fails

theorem insertAll_kept {other : α} (first rest : List α) (absent : upper ∉ rest)
    (member : other ∈ (insertAll beats first).takeWhile (· ≠ upper)) :
    other ∈ (insertAll beats (first ++ rest)).takeWhile (· ≠ upper) := by
  induction rest generalizing first with
  | nil => simpa using member
  | cons element rest ih =>
    rw [mem_cons, not_or] at absent
    rw [append_cons]
    apply ih _ absent.2
    rw [insertAll_append]
    exact takeWhile_kept (Ne.symm absent.1) member

/-- The elements that `upper` does not beat come first, then `upper`, then those that have one to beat. -/
theorem insertAll_closed (upperMember : upper ∈ elements) :
    ∃ first others, first ++ others ~ elements ∧ (∃ front, insertAll beats first = front ++ [upper]) ∧
      (∀ other ∈ elements, (other ≠ upper → ¬ beats upper other) → other ∈ first) ∧
      ∀ element ∈ others, ∀ other ∈ first, ¬ beats element other := by
  let unbeaten := (elements.erase upper).filter fun other => ¬ beats upper other
  let beaten := (elements.erase upper).filter fun other => !decide (¬ beats upper other)
  have start : ∃ front, insertAll beats (unbeaten ++ [upper]) = front ++ [upper] := by
    refine ⟨insertAll beats unbeaten, ?_⟩
    rw [insertAll_append]
    apply orderedInsert_loses
    intro other member
    simpa using (mem_filter.mp (mem_insertAll.mp member)).2
  obtain ⟨more, others, perm, last, left⟩ := insertAll_gathers (unbeaten ++ [upper]) beaten start
  refine ⟨unbeaten ++ [upper] ++ more, others, ?_, last, ?_, left⟩
  · calc unbeaten ++ [upper] ++ more ++ others
        ~ unbeaten ++ [upper] ++ beaten := by
          rw [append_assoc]
          exact perm.append_left _
      _ ~ upper :: (unbeaten ++ beaten) := by
          rw [append_assoc, singleton_append]
          exact perm_middle
      _ ~ upper :: elements.erase upper := (filter_append_perm _ _).cons _
      _ ~ elements := (perm_cons_erase upperMember).symm
  · intro other member spared
    by_cases same : other = upper
    · simp [same]
    · have chosen : other ∈ unbeaten :=
        mem_filter.mpr ⟨(mem_erase_of_ne same).mpr member, by simpa using spared same⟩
      simp [chosen]

/-- Where `upper` does not dominate `lower`, some order of the elements puts `lower` in front of it. -/
theorem exists_front (distinct : elements.Nodup) (upperMember : upper ∈ elements) (lowerMember : lower ∈ elements)
    (different : lower ≠ upper) (exposed : ¬ Dominates beats elements lower upper) :
    ∃ order, order ~ elements ∧ lower ∈ (insertAll beats order).takeWhile (· ≠ upper) := by
  obtain ⟨target, reached, spared⟩ : ∃ other, Reaches beats elements lower other ∧
      (other ≠ upper → ¬ beats upper other) := by
    simpa [Dominates] using exposed
  obtain ⟨first, others, whole, ⟨front, sorted⟩, chosen, left⟩ := @insertAll_closed _ beats _ _ _ _ upperMember
  have gathered : lower ∈ first := by
    revert lowerMember
    refine reached.head_induction_on (fun member => chosen target member spared) ?_
    intro current next ⟨wins, known⟩ _ ih member
    rcases mem_append.mp (whole.mem_iff.mpr member) with inside | later
    · exact inside
    · exact absurd wins (left current later next (ih known))
  have once : (first ++ others).Nodup := whole.nodup_iff.mpr distinct
  have sortedOnce : (front ++ [upper]).Nodup := by
    rw [← sorted, (insertAll_perm first).nodup_iff]
    exact once.of_append_left
  have upperGathered : upper ∈ first := chosen upper upperMember fun other => absurd rfl other
  refine ⟨first ++ others, whole, insertAll_kept _ _ (disjoint_of_nodup_append once upperGathered) ?_⟩
  have stands : lower ∈ front ++ [upper] := sorted ▸ mem_insertAll.mpr gathered
  rw [sorted, takeWhile_append_of_pos fun other member => by
    rw [decide_eq_true_eq]
    exact fun same => disjoint_of_nodup_append sortedOnce member (by simp [same])]
  exact mem_append_left _ (by simpa [different] using stands)

end Lib
