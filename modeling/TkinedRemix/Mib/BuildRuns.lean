import TkinedRemix.Mib.BuildSteps

/-!
The loops of the tree builder. The node at which `BuildSubTree` stands may be moved into the tree meanwhile; the
loop then goes on along the siblings there and ends.
-/

namespace Tnm.Mib

open Lib SiblingTree Relation List Option

section

variable {node : Nat → Parsed} {before after : Stage}

theorem Step.waiting_card (step : Step node before after) : after.waiting.card < before.waiting.card := by
  obtain ⟨_, _, _, waits, _, _, waiting, _⟩ := step
  rw [waiting]
  exact Finset.card_erase_lt_of_mem waits

theorem steps_waiting (steps : ReflTransGen (Step node) before after) : after.waiting ⊆ before.waiting := by
  induction steps with
  | refl => exact Finset.Subset.refl _
  | tail _ step ih =>
    obtain ⟨_, _, _, _, _, _, waiting, _⟩ := step
    rw [waiting]
    exact (Finset.erase_subset _ _).trans ih

theorem Step.paths (step : Step node before after) {entry : List Nat × Nat} (member : entry ∈ before.tree.paths) :
    entry ∈ after.tree.paths := by
  obtain ⟨root, _, _, _, _, tree, _⟩ := step
  rw [tree]
  exact paths_graft root _ _ member

theorem steps_paths (steps : ReflTransGen (Step node) before after) {entry : List Nat × Nat}
    (member : entry ∈ before.tree.paths) : entry ∈ after.tree.paths := by
  induction steps with
  | refl => exact member
  | tail _ step ih => exact step.paths ih

theorem steps_values (steps : ReflTransGen (Step node) before after) {address : Nat}
    (member : address ∈ before.tree.values) : address ∈ after.tree.values := by
  obtain ⟨path, member⟩ := mem_values_iff.mp member
  exact mem_values_iff.mpr ⟨path, steps_paths steps member⟩

theorem steps_left (steps : ReflTransGen (Step node) before after) {address : Nat} (waits : address ∈ before.waiting) :
    address ∈ after.waiting ∨ address ∈ after.tree.values ∨ address ∈ after.gone := by
  induction steps with
  | refl => exact .inl waits
  | @tail middle last _ step ih =>
    have stays : address ∈ middle.tree.values → address ∈ last.tree.values := steps_values (ReflTransGen.single step)
    obtain ⟨_, thisNode, _, _, _, _, waiting, gone⟩ := step
    rcases ih with waits | member | idle
    · by_cases same : address = thisNode
      · subst same
        by_cases linked : address ∈ last.tree.values
        · exact .inr (.inl linked)
        · rw [gone, if_neg linked]
          exact .inr (.inr (Finset.mem_insert_self _ _))
      · rw [waiting]
        exact .inl (Finset.mem_erase.mpr ⟨same, waits⟩)
    · exact .inr (.inl (stays member))
    · rw [gone]
      split
      · exact .inr (.inr idle)
      · exact .inr (.inr (Finset.mem_insert_of_mem idle))

end

variable {memory : Memory} {root : Nat}

theorem buildLoop_idle {rest : List Nat} {np : Place} (chain : memory.Chain (memory.load np) rest)
    (others : ∀ address ∈ rest, (memory.node address).parentName ≠ some (memory.node root).label) {fuel : Nat}
    (enough : rest.length < fuel) : buildLoop fuel root np memory = some memory := by
  induction rest generalizing np fuel with
  | nil =>
    obtain ⟨fuel, rfl⟩ := Nat.exists_eq_succ_of_ne_zero (by omega : fuel ≠ 0)
    have empty : memory.load np = none := chain
    rw [buildLoop, empty]
  | cons address rest ih =>
    obtain ⟨fuel, rfl⟩ := Nat.exists_eq_succ_of_ne_zero (by omega : fuel ≠ 0)
    obtain ⟨points, _, stored, tail⟩ := chain
    cases stored
    have behind : memory.Chain (memory.load (.next address)) rest := tail
    rw [buildLoop, points]
    simp only
    rw [if_neg (others address mem_cons_self)]
    apply ih behind
    · exact fun later member => others later (mem_cons_of_mem _ member)
    · rw [length_cons] at enough
      omega

variable {top : Option Nat} {stage : Stage}

theorem Represents.start (represents : Represents memory top stage) (hash : Nat) :
    ∃ rest, Cursor memory stage hash (.bucket hash) rest ∧
      ∀ address, address ∈ rest ↔ address ∈ stage.waiting ∧ memory.hashOf address = some hash := by
  obtain ⟨bin, chain, members⟩ := represents.bins hash
  exact ⟨bin, .start chain, members⟩

theorem Represents.behind (represents : Represents memory top stage) {hash address : Nat}
    (waits : address ∈ stage.waiting) (hashed : memory.hashOf address = some hash) :
    ∃ rest, Cursor memory stage hash (.next address) rest := by
  obtain ⟨_, chain, members⟩ := represents.bins hash
  obtain ⟨_, rest, rfl⟩ := append_of_mem ((members address).mpr ⟨waits, hashed⟩)
  obtain ⟨_, _, stored, tail⟩ := chain.suffix
  cases stored
  exact ⟨rest, .behind waits hashed tail⟩

structure Built (top : Option Nat) (memory : Memory) (stage : Stage) (run : Nat → Option Memory) (after : Memory)
    (final : Stage) : Prop where
  returns : ∃ bound, ∀ fuel ≥ bound, run fuel = some after
  kept : Kept memory after
  represents : Represents after top final
  steps : ReflTransGen (Step memory.node) stage final

def Distinct (memory : Memory) (waiting : Finset Nat) : Prop :=
  ∀ first ∈ waiting, ∀ second ∈ waiting, memory.hashOf first = memory.hashOf second →
    (memory.node first).parentName = (memory.node second).parentName

theorem Distinct.subset {after : Memory} {waiting fewer : Finset Nat} (distinct : Distinct memory waiting)
    (texts : after.node = memory.node) (subset : fewer ⊆ waiting) : Distinct after fewer := by
  intro first firstWaits second secondWaits
  simp only [Memory.hashOf, texts]
  exact distinct first (subset firstWaits) second (subset secondWaits)

theorem Cursor.atHead {np : Place} {rest : List Nat}
    (cursor : Cursor memory stage (hashNodeLabel (memory.node root).label) np rest)
    (other : ∀ address, np = .next address → (memory.node address).parentName ≠ some (memory.node root).label)
    (distinct : Distinct memory stage.waiting) {address : Nat} (waits : address ∈ stage.waiting)
    (refers : (memory.node address).parentName = some (memory.node root).label) :
    np = .bucket (hashNodeLabel (memory.node root).label) := by
  cases cursor with
  | start => rfl
  | @behind owner _ ownerWaits hashed =>
    have sameHash : memory.hashOf owner = memory.hashOf address := by
      rw [hashed, Memory.hashOf, refers, map_some]
    exact absurd ((distinct owner ownerWaits address waits sameHash).trans refers) (other owner rfl)

def Complete (memory : Memory) (root : Nat) (stage final : Stage) : Prop :=
  ∀ parent ∈ final.tree.values, parent = root ∨ parent ∉ stage.tree.values →
    ∀ address ∈ final.waiting, (memory.node address).parentName ≠ some (memory.node parent).label

theorem buildLoop_spec (count : Nat) {np : Place} {rest : List Nat} (small : stage.waiting.card = count)
    (represents : Represents memory top stage) (isRoot : root ∈ stage.tree.values)
    (cursor : Cursor memory stage (hashNodeLabel (memory.node root).label) np rest)
    (other : ∀ address, np = .next address → (memory.node address).parentName ≠ some (memory.node root).label) :
    ∃ after final, Built top memory stage (fun fuel => buildLoop fuel root np memory) after final ∧
      ((∃ address ∈ rest, (memory.node address).parentName = some (memory.node root).label) →
        final.waiting.card < stage.waiting.card) ∧
      (Distinct memory stage.waiting → Complete memory root stage final) := by
  -- on the nodes in all the lists, and for as many on those still to come
  induction count using Nat.strong_induction_on generalizing memory stage root np rest with
  | _ _ shorter =>
    induction rest generalizing np with
    | nil =>
      have empty : memory.load np = none := cursor.chain
      refine ⟨memory, stage, ⟨⟨1, ?_⟩, Kept.refl memory, represents, ReflTransGen.refl⟩, ?_, ?_⟩
      · intro fuel enough
        exact buildLoop_idle cursor.chain (by simp) enough
      · rintro ⟨_, member, _⟩
        cases member
      · rintro distinct parent member (rfl | new) address waits refers
        · rw [cursor.atHead other distinct waits refers] at empty
          obtain ⟨bin, chain, members⟩ := represents.bins (hashNodeLabel (memory.node parent).label)
          have inBin := (members address).mpr ⟨waits, by rw [Memory.hashOf, refers, map_some]⟩
          rw [show memory.nodehashtab _ = none from empty] at chain
          cases bin with
          | nil => cases inBin
          | cons => cases chain.1
        · exact new member
    | cons thisNode _ nextIh =>
      have waits := cursor.waits represents thisNode mem_cons_self
      obtain ⟨points, _, stored, tail⟩ := cursor.chain
      cases stored
      by_cases refers : (memory.node thisNode).parentName = some (memory.node root).label
      · obtain ⟨linked, child, first, links, keptLinked, step, isChild, onlyChild, representsLinked⟩ :=
          takeNode_spec represents cursor isRoot refers
        have fewer := step.waiting_card
        -- the children of the node that was found
        obtain ⟨_, childCursor, _⟩ := representsLinked.start (hashNodeLabel (linked.node child).label)
        obtain ⟨inner, second, ⟨⟨childBound, childReturns⟩, keptInner, representsInner, childSteps⟩, _,
            childComplete⟩ :=
          shorter _ (by omega) rfl representsLinked isChild childCursor (by rintro address same; cases same)
        rw [keptLinked.node] at childSteps
        have firstWaiting := steps_waiting (ReflTransGen.single step)
        have secondWaiting := steps_waiting childSteps
        have fewest := Finset.card_le_card secondWaiting
        have kept := keptLinked.trans keptInner
        have rootKept : root ∈ second.tree.values :=
          steps_values childSteps (steps_values (ReflTransGen.single step) isRoot)
        -- the loop goes on where it stood
        have goesOn : ∃ after final, Built top inner second (fun fuel => buildLoop fuel root np inner) after final ∧
            (Distinct memory stage.waiting → Complete inner root second final) := by
          have atHead := fun distinct => cursor.atHead other distinct waits.1 refers
          have idle : ∀ {chain : List Nat}, inner.Chain (inner.load np) chain →
              (∀ address ∈ chain, (inner.node address).parentName ≠ some (inner.node root).label) →
              ∃ after final, Built top inner second (fun fuel => buildLoop fuel root np inner) after final := by
            intro chain linked others
            exact ⟨inner, second, ⟨chain.length + 1, fun fuel enough => buildLoop_idle linked others (by omega)⟩,
              Kept.refl inner, representsInner, ReflTransGen.refl⟩
          cases cursor with
          | start =>
            obtain ⟨_, againCursor, _⟩ := representsInner.start (hashNodeLabel (memory.node root).label)
            rw [← kept.node] at againCursor ⊢
            obtain ⟨after, final, built, _, complete⟩ := shorter _ (by omega) rfl representsInner rootKept againCursor
              (by rintro address same; cases same)
            exact ⟨after, final, built, fun distinct =>
              complete (distinct.subset kept.node (secondWaiting.trans firstWaiting))⟩
          | @behind owner _ ownerWaits hashed =>
            have ownerOther := other owner rfl
            suffices goesOn : ∃ after final,
                Built top inner second (fun fuel => buildLoop fuel root (.next owner) inner) after final by
              obtain ⟨after, final, built⟩ := goesOn
              exact ⟨after, final, built, fun distinct => by cases atHead distinct⟩
            have ownerLeft := steps_left ((ReflTransGen.single step).trans childSteps) ownerWaits
            rw [← kept.node] at ownerOther
            rcases ownerLeft with stillWaits | inTree | alone
            · have hashedStill : inner.hashOf owner = some (hashNodeLabel (inner.node root).label) := by
                rw [Memory.hashOf, kept.node]
                exact hashed
              obtain ⟨_, againCursor⟩ := representsInner.behind stillWaits hashedStill
              obtain ⟨after, final, built, _⟩ := shorter _ (by omega) rfl representsInner rootKept againCursor
                (by rintro address same; cases same; exact ownerOther)
              exact ⟨after, final, built⟩
            · obtain ⟨_, linked, same⟩ :=
                representsInner.grown.held.siblings_after representsInner.grown.named inTree
              exact idle linked fun address member => by rw [same address member]; exact ownerOther
            · have last : inner.Chain (inner.load (.next owner)) [] := (representsInner.alone owner alone).1
              exact idle last (by simp)
        obtain ⟨after, final, ⟨⟨bound, returns⟩, keptAfter, represented, lastSteps⟩, complete⟩ := goesOn
        rw [kept.node] at lastSteps
        refine ⟨after, final,
          ⟨⟨max (max childBound bound) (memory.size + 1) + 1, ?_⟩, kept.trans keptAfter, represented,
          ((ReflTransGen.single step).trans childSteps).trans lastSteps⟩, ?_, ?_⟩
        · rintro (_ | fuel) enough
          · omega
          simp only [buildLoop, points, if_pos refers, links fuel (by omega), bind_eq_bind, bind_some]
          rw [childReturns fuel (by omega)]
          exact returns fuel (by omega)
        · have least := Finset.card_le_card (steps_waiting lastSteps)
          omega
        · intro distinct parent member isNew address waits
          have childrenTaken := childComplete (distinct.subset keptLinked.node firstWaiting)
          have ownTaken := complete distinct
          rw [Complete, keptLinked.node] at childrenTaken
          rw [Complete, kept.node] at ownTaken
          by_cases late : parent = root ∨ parent ∉ second.tree.values
          · exact ownTaken parent member late address waits
          · rw [not_or, not_not] at late
            refine childrenTaken parent late.2 ?_ address (steps_waiting lastSteps waits)
            by_cases atFirst : parent ∈ first.tree.values
            · rcases onlyChild parent atFirst with old | isChild
              · rcases isNew with same | new
                · exact absurd same late.1
                · exact absurd old new
              · exact .inl isChild
            · exact .inr atFirst
      · obtain ⟨after, final, ⟨⟨bound, returns⟩, kept, represented, steps⟩, progress, complete⟩ :=
          nextIh (.behind waits.1 waits.2 tail) (by rintro address same; cases same; exact refers)
        refine ⟨after, final, ⟨⟨bound + 1, ?_⟩, kept, represented, steps⟩, ?_, complete⟩
        · rintro (_ | fuel) _
          · omega
          simp only [buildLoop, points, if_neg refers]
          exact returns fuel (by omega)
        · rintro ⟨address, member, own⟩
          rcases mem_cons.mp member with rfl | later
          · exact absurd own refers
          · exact progress ⟨address, later, own⟩

theorem buildSubTree_spec (represents : Represents memory top stage) (isRoot : root ∈ stage.tree.values) :
    ∃ after final, Built top memory stage (fun fuel => buildSubTree fuel root memory) after final ∧
      ((∃ address ∈ stage.waiting, (memory.node address).parentName = some (memory.node root).label) →
        final.waiting.card < stage.waiting.card) ∧
      (Distinct memory stage.waiting → Complete memory root stage final) := by
  obtain ⟨_, cursor, members⟩ := represents.start (hashNodeLabel (memory.node root).label)
  obtain ⟨after, final, built, progress, complete⟩ :=
    buildLoop_spec _ rfl represents isRoot cursor (by rintro address same; cases same)
  refine ⟨after, final, built, ?_, complete⟩
  rintro ⟨address, waits, refers⟩
  refine progress ⟨address, (members address).mpr ⟨waits, ?_⟩, refers⟩
  rw [Memory.hashOf, refers, map_some]

end Tnm.Mib
