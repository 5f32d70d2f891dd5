import CommandWiring.Proofs.Descent
import CommandWiring.Proofs.Visits

/-!
# Searches above visited nodes

A walk goes as many levels down as a search above a node goes up. So if children name the node that
lists them, a search above a visited node sees every node on the way down to it, the root of the
walk included.
-/

namespace CommandWiring
namespace SyntaxNode

variable {N : Type} [SyntaxNode N]

/-!
# Ways down
-/

/-- A way from `root` down to a node. The nodes before that node are listed, the last one first. -/
inductive WayDown (root : N) : List N -> N -> Prop where
  | here : WayDown root [] root
  | down {passed : List N} {upper lower : N} :
      WayDown root passed upper -> lower ∈ children upper -> WayDown root (upper :: passed) lower

theorem Descends.exists_wayDown {root node : N} {steps : Nat} (h : Descends root steps node) :
    ∃ passed, passed.length = steps ∧ WayDown root passed node := by
  induction h with
  | here => exact ⟨[], rfl, .here⟩
  | down _ member ih =>
      rcases ih with ⟨passed, rfl, way⟩
      exact ⟨_ :: passed, rfl, way.down member⟩

theorem WayDown.root_mem {root node : N} {passed : List N} (way : WayDown root passed node)
    (strict : node ≠ root) : root ∈ passed := by
  induction way with
  | here => exact absurd rfl strict
  | @down passed upper lower before _ ih =>
      by_cases isRoot : upper = root
      · rw [isRoot]
        exact List.mem_cons_self
      · exact List.mem_cons_of_mem upper (ih isRoot)

/-- Below `root`, every child has the node that lists it for its parent. -/
def IsBacked (root : N) : Prop :=
  ∀ steps upper lower, Descends root steps upper -> lower ∈ children upper ->
    parent? lower = some upper

variable {root node : N} {passed : List N}

theorem WayDown.descends (way : WayDown root passed node) :
    Descends root passed.length node := by
  induction way with
  | here => exact .here
  | down _ member ih => exact ih.down member

theorem WayDown.above?_eq_getElem? (backed : IsBacked root) (way : WayDown root passed node)
    {steps : Nat} (inside : steps < passed.length) : above? (steps + 1) node = passed[steps]? := by
  induction way generalizing steps with
  | here => exact absurd inside (Nat.not_lt_zero steps)
  | @down passed upper lower before member ih =>
      rw [above?_succ (backed _ _ _ before.descends member)]
      cases steps with
      | zero => rfl
      | succ fewer =>
          rw [List.getElem?_cons_succ]
          exact ih (Nat.lt_of_succ_lt_succ inside)

theorem WayDown.exists_isNearest (backed : IsBacked root) (way : WayDown root passed node)
    {wanted : N -> Bool} (meets : ∃ upper ∈ passed, wanted upper = true) :
    ∃ steps < passed.length, ∃ found, IsNearest wanted steps node found ∧
      passed.find? wanted = some found := by
  rcases Option.isSome_iff_exists.mp (List.find?_isSome.mpr meets) with ⟨found, isFirst⟩
  rcases List.find?_eq_some_iff_append.mp isFirst with ⟨isWanted, before, after, rfl, passedOver⟩
  have inside : before.length < (before ++ found :: after).length := by simp
  refine ⟨before.length, inside, found, ⟨?_, isWanted, ?_⟩, isFirst⟩
  · rw [way.above?_eq_getElem? backed inside]
    simp
  · intro fewer less other isOther
    rw [way.above?_eq_getElem? backed (Nat.lt_trans less inside),
      List.getElem?_append_left less] at isOther
    have notWanted := passedOver other (List.mem_of_getElem? isOther)
    exact Bool.eq_false_iff.mpr fun isWanted => by simp [isWanted] at notWanted

/-!
# Searches above a visited node
-/

theorem mem_preorder_of_visited {β : Type} {visit : N -> β -> ForInStep β} {init : β}
    (visited : node ∈ (walk root (init, []) (recording visit)).2) :
    node ∈ preorder maxTreeDepth root := by
  rw [calls_walk] at visited
  exact (isCut_callsOn visit _ init).front.subset visited

/-- A search above a node that a walk has visited finds something, if the root of the walk is wanted
and children name the node that lists them: on every way down from the root, the last node before
the visited one that is wanted. In any structure whatever, a search above a node gives the first of
its first `maxTreeDepth` strict ancestors that is wanted, and nothing if none of them is. -/
theorem findAncestor?_sees_root (root : N) (wanted : N -> Bool) :
    (IsBacked root -> wanted root = true ->
      ∀ (β : Type) (visit : N -> β -> ForInStep β) (init : β),
        ∀ node ∈ (walk root (init, []) (recording visit)).2, node ≠ root ->
          ∃ found, findAncestor? node wanted = some found ∧
            (∃ passed, WayDown root passed node) ∧
              ∀ passed, WayDown root passed node -> passed.find? wanted = some found) ∧
      ∀ node : N,
        (∀ found, findAncestor? node wanted = some found ↔
          ∃ steps < maxTreeDepth, IsNearest wanted steps node found) ∧
        (findAncestor? node wanted = none ↔
          ∀ steps < maxTreeDepth, ∀ upper, above? (steps + 1) node = some upper ->
            wanted upper = false) := by
  constructor
  · intro backed rootWanted β visit init node visited strict
    rcases mem_preorder.mp (mem_preorder_of_visited visited) with ⟨depth, bound, reached⟩
    rcases reached.exists_wayDown with ⟨passed, rfl, way⟩
    have meets {passed : List N} (way : WayDown root passed node) :=
      way.exists_isNearest backed ⟨root, way.root_mem strict, rootWanted⟩
    rcases meets way with ⟨steps, less, found, isNearest, _⟩
    refine ⟨found, ?_, ⟨passed, way⟩, ?_⟩
    · exact ancestorWithin?_eq_some.mpr ⟨steps, Nat.lt_of_lt_of_le less bound, isNearest⟩
    · intro others otherWay
      rcases meets otherWay with ⟨_, _, other, alsoNearest, isFirst⟩
      rw [(isNearest.unique alsoNearest).2]
      exact isFirst
  · intro node
    exact ⟨fun _ => ancestorWithin?_eq_some, ancestorWithin?_eq_none⟩

/-!
# An endless line
-/

/-- A node of a line without end, told by its depth. -/
structure LineNode where
  depth : Nat
deriving DecidableEq

instance : SyntaxNode LineNode where
  kind _ := .block
  role _ := .other
  parent? node :=
    match node.depth with
    | 0 => none
    | above + 1 => some { depth := above }
  children node := [{ depth := node.depth + 1 }]
  mentions _ := []
  name? _ := none
  text _ := ""

/-- The root of a walk is seen from the deepest node that the walk visits. -/
theorem findAncestor?_sees_root_from_bottom :
    let root : LineNode := { depth := 0 }
    let bottom : LineNode := { depth := maxTreeDepth }
    let visit : LineNode -> Unit -> ForInStep Unit := fun _ state => .yield state
    IsBacked root ∧ bottom ∈ (walk root ((), []) (recording visit)).2 ∧
      findAncestor? bottom (· == root) = some root := by
  intro root bottom visit
  have backed : IsBacked root := by
    intro steps upper lower _ member
    rw [List.mem_singleton.mp member]
    rfl
  have descends (depth : Nat) : Descends root depth { depth := depth } := by
    induction depth with
    | zero => exact .here
    | succ depth ih => exact ih.down (List.mem_singleton_self _)
  have visited : bottom ∈ (walk root ((), []) (recording visit)).2 := by
    rw [calls_walk, callsOn_of_yield fun _ state => ⟨state, rfl⟩]
    exact mem_preorder.mpr ⟨maxTreeDepth, Nat.le_refl _, descends maxTreeDepth⟩
  rcases (findAncestor?_sees_root root (· == root)).1 backed (beq_self_eq_true root) Unit visit ()
      bottom visited (by decide) with ⟨found, isFound, ⟨passed, way⟩, onEveryWay⟩
  have isWanted := List.find?_some (onEveryWay passed way)
  rw [beq_iff_eq.mp isWanted] at isFound
  exact ⟨backed, visited, isFound⟩

end SyntaxNode
end CommandWiring
