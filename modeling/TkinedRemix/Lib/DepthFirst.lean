import TkinedRemix.Lib.Ends

/-!
Depth-first listing of a finite graph: a vertex is listed after the vertices it refers to.
-/

namespace Lib

open List

variable {α : Type}

def visit [DecidableEq α] (refs : α → List α) : Nat → α → List α → Option (List α)
  | 0, _, _ => none
  | fuel + 1, vertex, done =>
    if vertex ∈ done then some done
    else ((refs vertex).foldlM (fun done next => visit refs fuel next done) done).map (· ++ [vertex])

structure Ordered (refs : α → List α) (order : List α) : Prop where
  nodup : order.Nodup
  behind : ∀ before vertex after, order = before ++ vertex :: after → ∀ next ∈ refs vertex, next ∈ before

variable {refs : α → List α}

theorem Ordered.nil : Ordered refs ([] : List α) := by
  refine ⟨nodup_nil, ?_⟩
  intro before _ _ split
  cases before <;> cases split

theorem Ordered.snoc {order : List α} {vertex : α} (ordered : Ordered refs order) (fresh : vertex ∉ order)
    (listed : ∀ next ∈ refs vertex, next ∈ order) : Ordered refs (order ++ [vertex]) := by
  refine ⟨?_, ?_⟩
  · rw [nodup_append]
    exact ⟨ordered.nodup, nodup_singleton vertex, by
      intro _ member _ last equal
      rw [mem_singleton] at last
      exact fresh (last ▸ equal ▸ member)⟩
  · intro before other after split next member
    rcases eq_nil_or_concat after with rfl | ⟨front, last, rfl⟩
    · obtain ⟨rfl, same⟩ := append_inj' split rfl
      cases same
      exact listed next member
    · have longer : order ++ [vertex] = (before ++ other :: front) ++ [last] := by simpa using split
      obtain ⟨rfl, _⟩ := append_inj' longer rfl
      exact ordered.behind before other front rfl next member

structure Visited (refs : α → List α) (starts done after : List α) : Prop where
  ordered : Ordered refs after
  kept : done <+: after
  listed : ∀ vertex ∈ starts, vertex ∈ after
  reached : ∀ vertex ∈ after, vertex ∈ done ∨
    ∃ start ∈ starts, Relation.ReflTransGen (fun vertex next => next ∈ refs vertex) start vertex

variable [DecidableEq α]

theorem visitAll_of {starts done : List α} (ordered : Ordered refs done)
    (each : ∀ start ∈ starts, ∀ done, Ordered refs done → Ends (visit refs · start done) (Visited refs [start] done)) :
    Ends (fun fuel => starts.foldlM (fun done next => visit refs fuel next done) done) (Visited refs starts done) := by
  induction starts generalizing done with
  | nil => exact Ends.value done ⟨ordered, prefix_refl done, nofun, fun vertex member => .inl member⟩
  | cons start _ ih =>
    refine ((each start mem_cons_self done ordered).bind fun _ visited => (ih visited.ordered fun other member =>
      each other (mem_cons_of_mem _ member)).mono fun after visitedRest => ?_).congr fun _ => foldlM_cons
    refine ⟨visitedRest.ordered, visited.kept.trans visitedRest.kept, ?_, ?_⟩
    · intro vertex member
      rcases mem_cons.mp member with rfl | later
      · exact visitedRest.kept.subset (visited.listed vertex mem_cons_self)
      · exact visitedRest.listed vertex later
    · intro vertex member
      rcases visitedRest.reached vertex member with old | ⟨other, later, path⟩
      · rcases visited.reached vertex old with before | ⟨_, single, path⟩
        · exact .inl before
        · exact .inr ⟨start, mem_cons_self, mem_singleton.mp single ▸ path⟩
      · exact .inr ⟨other, mem_cons_of_mem _ later, path⟩

theorem visit_ordered (wellFounded : WellFounded fun next vertex => next ∈ refs vertex) (vertex : α) :
    ∀ done, Ordered refs done → Ends (visit refs · vertex done) (Visited refs [vertex] done) := by
  induction vertex using wellFounded.induction with
  | _ vertex ih =>
    intro done ordered
    by_cases listed : vertex ∈ done
    · have visited : Visited refs [vertex] done done :=
        ⟨ordered, prefix_refl done, forall_mem_singleton.mpr listed, fun other member => .inl member⟩
      exact (Ends.value done visited).succ fun _ => by rw [visit, if_pos listed]
    · refine ((visitAll_of ordered fun next member => ih next member).bind fun middle visited =>
        Ends.value (middle ++ [vertex]) ?_).succ fun _ => by rw [visit, if_neg listed, Option.map_eq_bind]; rfl
      -- the vertex can not be among those it refers to
      have fresh : vertex ∉ middle := by
        intro member
        rcases visited.reached vertex member with old | ⟨next, refers, path⟩
        · exact listed old
        · have cycle : Relation.TransGen (fun vertex next => next ∈ refs vertex) vertex vertex :=
            Relation.TransGen.head' refers path
          exact wellFounded.transGen.irrefl.irrefl vertex (Relation.transGen_swap.mp cycle)
      refine ⟨visited.ordered.snoc fresh visited.listed, visited.kept.trans (prefix_append middle [vertex]),
        forall_mem_singleton.mpr (mem_append_right _ mem_cons_self), ?_⟩
      · intro other member
        rcases mem_append.mp member with inside | last
        · rcases visited.reached other inside with old | ⟨_, refers, path⟩
          · exact .inl old
          · exact .inr ⟨vertex, mem_cons_self, Relation.ReflTransGen.head refers path⟩
        · rw [mem_singleton.mp last]
          exact .inr ⟨vertex, mem_cons_self, Relation.ReflTransGen.refl⟩

theorem wellFounded_of_acyclic {vertices : List α} (leaves : ∀ vertex, vertex ∉ vertices → refs vertex = [])
    (acyclic : ∀ vertex, ¬Relation.TransGen (fun vertex next => next ∈ refs vertex) vertex vertex) :
    WellFounded fun next vertex => next ∈ refs vertex := by
  let below (first second : { vertex // vertex ∈ vertices }) : Prop :=
    Relation.TransGen (fun vertex next => next ∈ refs vertex) second.1 first.1
  have irreflexive : Std.Irrefl below := ⟨fun vertex cycle => acyclic vertex.1 cycle⟩
  have wellFounded : WellFounded below := Finite.wellFounded_of_trans_of_irrefl below
  have leaf : ∀ vertex, vertex ∉ vertices → Acc (fun next vertex => next ∈ refs vertex) vertex := by
    intro vertex outside
    refine ⟨vertex, fun next refers => ?_⟩
    rw [leaves vertex outside] at refers
    cases refers
  have inner : ∀ vertex : { vertex // vertex ∈ vertices }, Acc (fun next vertex => next ∈ refs vertex) vertex.1 := by
    intro vertex
    induction vertex using wellFounded.induction with
    | _ vertex ih =>
      refine ⟨vertex.1, fun next refers => ?_⟩
      by_cases inside : next ∈ vertices
      · exact ih ⟨next, inside⟩ (Relation.TransGen.single refers)
      · exact leaf next inside
  refine ⟨fun vertex => ?_⟩
  by_cases inside : vertex ∈ vertices
  · exact inner ⟨vertex, inside⟩
  · exact leaf vertex inside

end Lib
