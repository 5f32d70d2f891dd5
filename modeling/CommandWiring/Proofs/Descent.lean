import CommandWiring.Proofs.Walk

/-!
# Descents

A descent leads from a node down to one below it. In a coherent view every child has the node that
lists it for its parent, so the way up undoes every descent, and a listing has no node twice. In an
ordered view the children of a node lie inside it and side by side.
-/

namespace CommandWiring
namespace SyntaxNode

variable {N : Type} [SyntaxNode N]

/-- A node is so many levels below `upper`. -/
inductive Descends (upper : N) : Nat -> N -> Prop where
  | here : Descends upper 0 upper
  | down {steps : Nat} {lower child : N} :
      Descends upper steps lower -> child ∈ children lower -> Descends upper (steps + 1) child

theorem Descends.trans {upper middle lower : N} {first second : Nat}
    (before : Descends upper first middle) (after : Descends middle second lower) :
    Descends upper (first + second) lower := by
  induction after with
  | here => exact before
  | down _ child ih => exact .down ih child

theorem Descends.of_mem_children {upper child : N} (member : child ∈ children upper) :
    Descends upper 1 child :=
  .down .here member

theorem Descends.split {upper lower : N} {first second : Nat}
    (h : Descends upper (first + second) lower) :
    ∃ middle, Descends upper first middle ∧ Descends middle second lower := by
  induction second generalizing lower with
  | zero => exact ⟨lower, h, .here⟩
  | succ second ih =>
      cases h with
      | down before child =>
          rcases ih before with ⟨middle, top, bottom⟩
          exact ⟨middle, top, .down bottom child⟩

theorem Descends.exists_child {upper lower : N} {steps : Nat}
    (h : Descends upper (steps + 1) lower) :
    ∃ child ∈ children upper, Descends child steps lower := by
  rw [Nat.add_comm] at h
  rcases h.split with ⟨child, first, rest⟩
  cases first with
  | down start member =>
      cases start with
      | here => exact ⟨child, member, rest⟩

theorem mem_preorder {depth : Nat} {upper lower : N} :
    lower ∈ preorder depth upper ↔ ∃ steps ≤ depth, Descends upper steps lower := by
  induction depth generalizing upper with
  | zero =>
      simp only [preorder, List.mem_singleton]
      constructor
      · intro same
        subst same
        exact ⟨0, Nat.le_refl 0, .here⟩
      · intro given
        rcases given with ⟨steps, bound, h⟩
        rcases Nat.le_zero.mp bound with rfl
        cases h with
        | here => rfl
  | succ depth ih =>
      simp only [preorder, List.mem_cons, List.mem_flatMap, ih]
      constructor
      · intro given
        rcases given with rfl | ⟨child, member, steps, bound, h⟩
        · exact ⟨0, Nat.zero_le _, .here⟩
        · have := (Descends.of_mem_children member).trans h
          exact ⟨1 + steps, by omega, this⟩
      · intro given
        rcases given with ⟨steps, bound, h⟩
        cases steps with
        | zero =>
            cases h with
            | here => exact Or.inl rfl
        | succ steps =>
            rcases h.exists_child with ⟨child, member, rest⟩
            exact Or.inr ⟨child, member, steps, by omega, rest⟩

theorem of_mem_collectAll {root node : N} {wanted : N -> Bool}
    (member : node ∈ collectAll root wanted) :
    (∃ steps, Descends root steps node) ∧ wanted node = true := by
  rw [collectAll_eq_filter, List.mem_filter] at member
  rcases mem_preorder.mp member.1 with ⟨steps, _, below⟩
  exact ⟨⟨steps, below⟩, member.2⟩

theorem of_findFirst?_eq_some {root node : N} {wanted : N -> Bool}
    (found : findFirst? root wanted = some node) :
    (∃ steps, Descends root steps node) ∧ wanted node = true := by
  rw [findFirst?_eq_find?] at found
  rcases mem_preorder.mp (List.mem_of_find?_eq_some found) with ⟨steps, _, below⟩
  exact ⟨⟨steps, below⟩, List.find?_some found⟩

/-!
# Heights
-/

def HeightAtMost (bound : Nat) (root : N) : Prop :=
  ∀ steps node, Descends root steps node -> steps ≤ bound

def level (root : N) : Nat -> List N
  | 0 => [root]
  | steps + 1 => (level root steps).flatMap children

theorem mem_level {root node : N} {steps : Nat} :
    node ∈ level root steps ↔ Descends root steps node := by
  induction steps generalizing node with
  | zero =>
      simp only [level, List.mem_singleton]
      constructor
      · intro same
        subst same
        exact .here
      · intro h
        cases h with
        | here => rfl
  | succ steps ih =>
      simp only [level, List.mem_flatMap, ih]
      constructor
      · intro given
        rcases given with ⟨above, before, member⟩
        exact .down before member
      · intro h
        cases h with
        | down before member => exact ⟨_, before, member⟩

theorem heightAtMost_of_level_eq_nil {bound : Nat} {root : N}
    (empty : level root (bound + 1) = []) : HeightAtMost bound root := by
  intro steps node h
  apply Nat.le_of_not_lt
  intro deep
  obtain ⟨rest, rfl⟩ : ∃ rest, steps = bound + 1 + rest := ⟨steps - (bound + 1), by omega⟩
  rcases h.split with ⟨middle, top, _⟩
  have member := mem_level.mpr top
  rw [empty] at member
  cases member

theorem HeightAtMost.mono {low high : Nat} {root : N} (height : HeightAtMost low root)
    (le : low ≤ high) : HeightAtMost high root := by
  intro steps node h
  exact Nat.le_trans (height steps node h) le

theorem HeightAtMost.of_descends {bound depth : Nat} {root upper : N}
    (height : HeightAtMost bound root) (reached : Descends root depth upper) :
    HeightAtMost (bound - depth) upper := by
  intro steps node below
  have := height _ _ (reached.trans below)
  omega

theorem preorder_eq_of_heightAtMost {bound depth : Nat} {root : N}
    (height : HeightAtMost bound root) (le : bound ≤ depth) :
    preorder depth root = preorder bound root := by
  induction depth generalizing bound root with
  | zero =>
      rcases Nat.le_zero.mp le with rfl
      rfl
  | succ depth ih =>
      cases bound with
      | zero =>
          have noChildren : children root = [] := by
            rw [List.eq_nil_iff_forall_not_mem]
            intro child member
            have := height _ _ (.of_mem_children member)
            omega
          rw [preorder, preorder, noChildren, List.flatMap_nil]
      | succ bound =>
          have below : ∀ child ∈ children root, preorder depth child = preorder bound child := by
            intro child member
            exact ih (height.of_descends (.of_mem_children member)) (Nat.le_of_succ_le_succ le)
          rw [preorder, preorder, List.flatMap_def, List.flatMap_def, List.map_congr_left below]

theorem mem_preorder_of_heightAtMost {bound : Nat} {root node : N}
    (height : HeightAtMost bound root) :
    node ∈ preorder bound root ↔ ∃ steps, Descends root steps node := by
  rw [mem_preorder]
  constructor
  · intro given
    rcases given with ⟨steps, _, h⟩
    exact ⟨steps, h⟩
  · intro given
    rcases given with ⟨steps, h⟩
    exact ⟨steps, height steps node h, h⟩

theorem isSome_findFirst?_iff {root : N} {wanted : N -> Bool}
    (height : HeightAtMost maxTreeDepth root) :
    (findFirst? root wanted).isSome = true ↔
      ∃ steps node, Descends root steps node ∧ wanted node = true := by
  rw [findFirst?_eq_find?, List.find?_isSome]
  simp only [mem_preorder_of_heightAtMost height]
  constructor
  · rintro ⟨node, ⟨steps, below⟩, isWanted⟩
    exact ⟨steps, node, below, isWanted⟩
  · rintro ⟨steps, node, below, isWanted⟩
    exact ⟨node, ⟨steps, below⟩, isWanted⟩

theorem mem_collectAll_iff {root node : N} {wanted : N -> Bool}
    (height : HeightAtMost maxTreeDepth root) :
    node ∈ collectAll root wanted ↔
      (∃ steps, Descends root steps node) ∧ wanted node = true := by
  rw [collectAll_eq_filter, List.mem_filter, mem_preorder_of_heightAtMost height]

/-!
# Coherent views
-/

structure Coherent (root : N) : Prop where
  top : parent? root = none
  back {steps : Nat} {node child : N} :
    Descends root steps node -> child ∈ children node -> parent? child = some node
  distinct {steps : Nat} {node : N} : Descends root steps node -> (children node).Nodup

/-- The ancestor so many steps above a node. -/
def above? : Nat -> N -> Option N
  | 0, node => some node
  | steps + 1, node => (parent? node).bind (above? steps)

theorem above?_add {first second : Nat} {lower middle : N} (h : above? first lower = some middle) :
    above? (first + second) lower = above? second middle := by
  induction first generalizing lower with
  | zero =>
      rcases Option.some.inj h with rfl
      rw [Nat.zero_add]
  | succ first ih =>
      rw [Nat.succ_add]
      simp only [above?] at h ⊢
      cases hparent : parent? lower with
      | none => simp [hparent] at h
      | some parent =>
          rw [hparent] at h
          exact ih h

theorem above?_succ {node parent : N} (isParent : parent? node = some parent) (steps : Nat) :
    above? (steps + 1) node = above? steps parent := by
  rw [above?, isParent]
  rfl

/-- The nearest strict ancestor that is wanted, with so many ancestors before it. -/
structure IsNearest (wanted : N -> Bool) (steps : Nat) (node upper : N) : Prop where
  above : above? (steps + 1) node = some upper
  isWanted : wanted upper = true
  nearest : ∀ fewer < steps, ∀ other, above? (fewer + 1) node = some other ->
    wanted other = false

theorem isNearest_zero {wanted : N -> Bool} {node parent : N}
    (isParent : parent? node = some parent) (isWanted : wanted parent = true) :
    IsNearest wanted 0 node parent where
  above := above?_succ isParent 0
  isWanted := isWanted
  nearest := fun _ less => absurd less (Nat.not_lt_zero _)

theorem isNearest_succ {wanted : N -> Bool} {steps : Nat} {node parent upper : N}
    (isParent : parent? node = some parent) (notWanted : wanted parent = false) :
    IsNearest wanted (steps + 1) node upper ↔ IsNearest wanted steps parent upper := by
  have shift := above?_succ isParent
  constructor
  · intro given
    rcases given with ⟨above, isWanted, nearest⟩
    refine ⟨?_, isWanted, ?_⟩
    · rw [← shift]
      exact above
    · intro fewer less other isOther
      rw [← shift] at isOther
      exact nearest (fewer + 1) (Nat.succ_lt_succ less) other isOther
  · intro given
    rcases given with ⟨above, isWanted, nearest⟩
    refine ⟨?_, isWanted, ?_⟩
    · rw [shift]
      exact above
    · intro fewer less other isOther
      rw [shift] at isOther
      cases fewer with
      | zero =>
          rw [← Option.some.inj isOther]
          exact notWanted
      | succ fewer => exact nearest fewer (Nat.lt_of_succ_lt_succ less) other isOther

theorem IsNearest.steps_le {wanted : N -> Bool} {node first second : N} {steps more : Nat}
    (one : IsNearest wanted steps node first) (other : IsNearest wanted more node second) :
    steps ≤ more := by
  apply Nat.le_of_not_lt
  intro less
  have passed := one.nearest more less second other.above
  rw [other.isWanted] at passed
  cases passed

theorem IsNearest.unique {wanted : N -> Bool} {node first second : N} {steps more : Nat}
    (one : IsNearest wanted steps node first) (other : IsNearest wanted more node second) :
    steps = more ∧ first = second := by
  obtain rfl : steps = more := Nat.le_antisymm (one.steps_le other) (other.steps_le one)
  exact ⟨rfl, Option.some.inj (one.above.symm.trans other.above)⟩

theorem ancestorWithin?_eq_some {bound : Nat} {node upper : N} {wanted : N -> Bool} :
    ancestorWithin? bound node wanted = some upper ↔
      ∃ steps < bound, IsNearest wanted steps node upper := by
  induction bound generalizing node with
  | zero => simp [ancestorWithin?]
  | succ bound ih =>
      rw [ancestorWithin?]
      cases hparent : parent? node with
      | none =>
          constructor
          · intro h
            cases h
          · intro given
            rcases given with ⟨steps, _, ⟨above, _, _⟩⟩
            rw [above?, hparent] at above
            cases above
      | some parent =>
          dsimp only
          cases hwanted : wanted parent with
          | true =>
              rw [if_pos rfl, Option.some.injEq]
              constructor
              · intro same
                subst same
                exact ⟨0, Nat.succ_pos _, isNearest_zero hparent hwanted⟩
              · intro given
                rcases given with ⟨steps, _, ⟨above, _, nearest⟩⟩
                cases steps with
                | zero => exact Option.some.inj ((above?_succ hparent 0).symm.trans above)
                | succ steps =>
                    have passed := nearest 0 (Nat.succ_pos _) parent (above?_succ hparent 0)
                    rw [hwanted] at passed
                    cases passed
          | false =>
              rw [if_neg Bool.false_ne_true, ih]
              constructor
              · intro given
                rcases given with ⟨steps, less, isNearest⟩
                exact ⟨steps + 1, Nat.succ_lt_succ less,
                  (isNearest_succ hparent hwanted).mpr isNearest⟩
              · intro given
                rcases given with ⟨steps, less, isNearest⟩
                cases steps with
                | zero =>
                    have same := (above?_succ hparent 0).symm.trans isNearest.above
                    rw [Option.some.inj same, isNearest.isWanted] at hwanted
                    cases hwanted
                | succ steps =>
                    exact ⟨steps, Nat.lt_of_succ_lt_succ less,
                      (isNearest_succ hparent hwanted).mp isNearest⟩

theorem kind_of_enclosing?_eq_some {node upper : N} {wanted : NodeKind}
    (found : enclosing? node wanted = some upper) : kind upper = wanted := by
  rcases ancestorWithin?_eq_some.mp found with ⟨_, _, isNearest⟩
  exact beq_iff_eq.mp isNearest.isWanted

theorem ancestorWithin?_eq_none {bound : Nat} {node : N} {wanted : N -> Bool} :
    ancestorWithin? bound node wanted = none ↔
      ∀ steps < bound, ∀ upper, above? (steps + 1) node = some upper -> wanted upper = false := by
  induction bound generalizing node with
  | zero => simp [ancestorWithin?]
  | succ bound ih =>
      rw [ancestorWithin?]
      cases hparent : parent? node with
      | none => simp [above?, hparent]
      | some parent =>
          have shift := above?_succ hparent
          dsimp only
          cases hwanted : wanted parent with
          | true =>
              rw [if_pos rfl]
              constructor
              · intro h
                cases h
              · intro passed
                have notWanted := passed 0 (Nat.succ_pos _) parent (shift 0)
                rw [hwanted] at notWanted
                cases notWanted
          | false =>
              rw [if_neg Bool.false_ne_true, ih]
              constructor
              · intro passed steps less upper isUpper
                rw [shift] at isUpper
                cases steps with
                | zero =>
                    rcases Option.some.inj isUpper with rfl
                    exact hwanted
                | succ steps => exact passed steps (Nat.lt_of_succ_lt_succ less) upper isUpper
              · intro passed steps less upper isUpper
                rw [← shift] at isUpper
                exact passed (steps + 1) (Nat.succ_lt_succ less) upper isUpper

namespace Coherent

variable {root : N}

theorem above?_of_descends (coherent : Coherent root) {depth steps : Nat} {upper lower : N}
    (reached : Descends root depth upper) (h : Descends upper steps lower) :
    above? steps lower = some upper := by
  induction h with
  | here => rfl
  | down before member ih =>
      have parent := coherent.back (reached.trans before) member
      simpa [above?, parent] using ih

theorem of_parent (coherent : Coherent root) {depth : Nat} {lower upper : N}
    (reached : Descends root depth lower) (isParent : parent? lower = some upper) :
    lower ∈ children upper ∧ ∃ less, Descends root less upper := by
  cases reached with
  | here =>
      rw [coherent.top] at isParent
      cases isParent
  | down before member =>
      rw [coherent.back before member] at isParent
      rcases Option.some.inj isParent with rfl
      exact ⟨member, _, before⟩

theorem descends_of_above? (coherent : Coherent root) {depth steps : Nat} {upper lower : N}
    (reached : Descends root depth lower) (h : above? steps lower = some upper) :
    Descends upper steps lower ∧ ∃ less, Descends root less upper := by
  induction steps generalizing depth lower with
  | zero =>
      rcases Option.some.inj h with rfl
      exact ⟨.here, depth, reached⟩
  | succ steps ih =>
      rcases Option.bind_eq_some_iff.mp h with ⟨parent, isParent, further⟩
      rcases coherent.of_parent reached isParent with ⟨member, less, parentReached⟩
      rcases ih parentReached further with ⟨below, upperReached⟩
      exact ⟨below.down member, upperReached⟩

theorem depth_unique (coherent : Coherent root) {first second : Nat} {node : N}
    (one : Descends root first node) (other : Descends root second node) : first = second := by
  have noHigher {lower higher : Nat} (low : Descends root lower node)
      (high : Descends root higher node) : ¬ lower < higher := by
    intro less
    obtain ⟨rest, rfl⟩ : ∃ rest, higher = lower + (rest + 1) := ⟨higher - lower - 1, by omega⟩
    have atRoot := coherent.above?_of_descends .here low
    have atTop := coherent.above?_of_descends .here high
    rw [above?_add atRoot] at atTop
    simp [above?, coherent.top] at atTop
  have := noHigher one other
  have := noHigher other one
  omega

theorem descends_of_descends (coherent : Coherent root) {depth otherDepth long short : Nat}
    {upper middle lower : N} (upperReached : Descends root depth upper)
    (middleReached : Descends root otherDepth middle) (far : Descends upper (long + short) lower)
    (near : Descends middle short lower) : Descends upper long middle := by
  rcases far.split with ⟨between, top, bottom⟩
  have same : some between = some middle := by
    rw [← coherent.above?_of_descends (upperReached.trans top) bottom]
    exact coherent.above?_of_descends middleReached near
  rcases Option.some.inj same with rfl
  exact top

theorem eq_of_mem_children (coherent : Coherent root) {depth other : Nat} {first second child : N}
    (one : Descends root depth first) (more : Descends root other second)
    (inFirst : child ∈ children first) (inSecond : child ∈ children second) : first = second := by
  have isParent := coherent.back one inFirst
  rw [coherent.back more inSecond] at isParent
  exact (Option.some.inj isParent).symm

theorem nodup_preorder (coherent : Coherent root) {depth steps : Nat} {node : N}
    (reached : Descends root steps node) : (preorder depth node).Nodup := by
  induction depth generalizing steps node with
  | zero => simp [preorder]
  | succ depth ih =>
      rw [preorder, List.nodup_cons]
      constructor
      · intro member
        rcases List.mem_flatMap.mp member with ⟨child, isChild, below⟩
        rcases mem_preorder.mp below with ⟨further, _, h⟩
        have deeper := (reached.down isChild).trans h
        have := coherent.depth_unique reached deeper
        omega
      · refine List.pairwise_flatMap.mpr ⟨?_, ?_⟩
        · intro child isChild
          exact ih (reached.down isChild)
        · refine (coherent.distinct reached).imp_of_mem ?_
          rintro first second isFirst isSecond different lower inFirst _ inSecond rfl
          rcases mem_preorder.mp inFirst with ⟨steps₁, _, h₁⟩
          rcases mem_preorder.mp inSecond with ⟨steps₂, _, h₂⟩
          -- both lie equally far above `lower`, so they are the same ancestor of it
          have := coherent.depth_unique ((reached.down isFirst).trans h₁)
            ((reached.down isSecond).trans h₂)
          obtain rfl : steps₁ = steps₂ := by omega
          have up₁ := coherent.above?_of_descends (reached.down isFirst) h₁
          have up₂ := coherent.above?_of_descends (reached.down isSecond) h₂
          rw [up₁] at up₂
          exact different (Option.some.inj up₂)

end Coherent

/-!
# Ordered views
-/

structure Ordered (start stop : N -> Nat) (root : N) : Prop where
  forward {steps : Nat} {node : N} : Descends root steps node -> start node ≤ stop node
  inside {steps : Nat} {node child : N} : Descends root steps node -> child ∈ children node ->
    start node ≤ start child ∧ stop child ≤ stop node
  apart {steps : Nat} {node : N} : Descends root steps node ->
    (children node).Pairwise fun first second => stop first ≤ start second

namespace Ordered

variable {start stop : N -> Nat} {root : N}

theorem inside_of_descends (ordered : Ordered start stop root) {depth steps : Nat} {upper lower : N}
    (reached : Descends root depth upper) (h : Descends upper steps lower) :
    start upper ≤ start lower ∧ stop lower ≤ stop upper := by
  induction h with
  | here => exact ⟨Nat.le_refl _, Nat.le_refl _⟩
  | down before member ih =>
      have := ordered.inside (reached.trans before) member
      omega

/-- Of two nodes in a listing, the second is below the first or behind its end. -/
theorem pairwise_preorder (ordered : Ordered start stop root) {depth steps : Nat} {node : N}
    (reached : Descends root steps node) :
    (preorder depth node).Pairwise fun first second =>
      (∃ further, Descends first further second) ∨ stop first ≤ start second := by
  induction depth generalizing steps node with
  | zero => simp [preorder]
  | succ depth ih =>
      rw [preorder, List.pairwise_cons]
      constructor
      · intro lower member
        rcases List.mem_flatMap.mp member with ⟨child, isChild, below⟩
        rcases mem_preorder.mp below with ⟨further, _, h⟩
        exact Or.inl ⟨1 + further, (Descends.of_mem_children isChild).trans h⟩
      · refine List.pairwise_flatMap.mpr ⟨?_, ?_⟩
        · intro child isChild
          exact ih (reached.down isChild)
        · refine (ordered.apart reached).imp_of_mem ?_
          intro first second isFirst isSecond before lower inFirst other inSecond
          rcases mem_preorder.mp inFirst with ⟨steps₁, _, h₁⟩
          rcases mem_preorder.mp inSecond with ⟨steps₂, _, h₂⟩
          have := ordered.inside_of_descends (reached.down isFirst) h₁
          have := ordered.inside_of_descends (reached.down isSecond) h₂
          exact Or.inr (by omega)

theorem preorder_ascending (ordered : Ordered start stop root) (depth : Nat) :
    (preorder depth root).Pairwise fun first second => start first ≤ start second := by
  refine (ordered.pairwise_preorder .here).imp_of_mem ?_
  intro first second isFirst _ related
  rcases mem_preorder.mp isFirst with ⟨steps, _, reached⟩
  rcases related with ⟨further, below⟩ | behind
  · exact (ordered.inside_of_descends reached below).1
  · have := ordered.forward reached
    omega

/-- Of two nodes one is below the other, or one ends before the other begins. -/
theorem comparable (ordered : Ordered start stop root) {depth other : Nat} {first second : N}
    (one : Descends root depth first) (more : Descends root other second) :
    (∃ steps, Descends first steps second) ∨ (∃ steps, Descends second steps first) ∨
      stop first ≤ start second ∨ stop second ≤ start first := by
  have listed : (preorder (depth + other) root).Pairwise fun first second =>
      (∃ further, Descends first further second) ∨ stop first ≤ start second :=
    ordered.pairwise_preorder .here
  refine List.Pairwise.forall_of_forall_of_flip (l := preorder (depth + other) root)
    (R := fun first second : N =>
      (∃ steps, Descends first steps second) ∨ (∃ steps, Descends second steps first) ∨
        stop first ≤ start second ∨ stop second ≤ start first) ?_ (listed.imp ?_) (listed.imp ?_)
    (mem_preorder.mpr ⟨depth, Nat.le_add_right _ _, one⟩)
    (mem_preorder.mpr ⟨other, Nat.le_add_left _ _, more⟩)
  · intro node _
    exact Or.inl ⟨0, .here⟩
  · rintro earlier later (below | behind)
    · exact Or.inl below
    · exact Or.inr (Or.inr (Or.inl behind))
  · rintro earlier later (below | behind)
    · exact Or.inr (Or.inl below)
    · exact Or.inr (Or.inr (Or.inr behind))

end Ordered

end SyntaxNode
end CommandWiring
