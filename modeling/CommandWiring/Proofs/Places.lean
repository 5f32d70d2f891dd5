import CommandWiring.Java.View
import Mathlib.Data.List.Nodup

/-!
# Places of a tree

The children of a place are the places that have it for their parent, each once. What holds of the
root and is handed down from a tree to its children holds at every place.
-/

namespace CommandWiring
namespace Java

/-!
# Roots
-/

/-- What the tree of every document is: in order, well shaped, and a whole text. -/
structure Tree.IsUnit (root : Tree) : Prop where
  ordered : root.Ordered
  shaped : root.Shaped
  isUnit : root.construct?.any Construct.isUnit = true

theorem Tree.IsUnit.exists_construct {root : Tree} (isUnit : root.IsUnit) :
    ∃ construct, root.construct? = some construct ∧ construct.isUnit = true := by
  have whole := isUnit.isUnit
  cases isRoot : root.construct? with
  | none =>
      rw [isRoot] at whole
      cases whole
  | some construct =>
      rw [isRoot] at whole
      exact ⟨construct, rfl, whole⟩

theorem Document.isUnit_root (document : Document) : document.root.IsUnit where
  ordered := document.ordered_root
  shaped := document.shaped_root
  isUnit := document.isUnit

namespace Tree

variable {tree lower : Tree} {construct : Construct}

theorem Ordered.child (ordered : tree.Ordered) (member : lower ∈ tree.children) : lower.Ordered :=
  ordered.atPart (mem_parts_of_mem_children member)

theorem Ordered.between (ordered : tree.Ordered) :
    Between tree.span.start tree.span.stop (tree.children.map span) := by
  have inOrder := ordered.here
  cases tree with
  | token span => exact inOrder
  | extra span parts => exact Between.le inOrder
  | node slot construct span children => exact inOrder

theorem Shaped.child (shaped : tree.Shaped) (member : lower ∈ tree.children) : lower.Shaped :=
  shaped.atPart (mem_parts_of_mem_children member)

theorem Shaped.hasShape (shaped : tree.Shaped) (isNode : tree.construct? = some construct) :
    tree.HasShape construct :=
  shaped.here construct isNode

theorem Shaped.admits (shaped : tree.Shaped) (isNode : tree.construct? = some construct) :
    Shape.admits construct (tree.children.filterMap seat?) = true :=
  (shaped.hasShape isNode).admits

end Tree

namespace Place

variable {root : Tree}

/-!
# Children and parents
-/

theorem map_focus_childrenFrom (place : Place root) (index : Nat) (trees : List Tree)
    (h : place.focus.children.drop index = trees) :
    (childrenFrom place index trees h).map focus = trees := by
  induction trees generalizing index with
  | nil => rfl
  | cons first rest ih => rw [childrenFrom, List.map_cons, ih]

theorem map_focus_children (place : Place root) :
    place.children.map focus = place.focus.children :=
  map_focus_childrenFrom place 0 _ rfl

theorem map_path_childrenFrom (place : Place root) (index : Nat) (trees : List Tree)
    (h : place.focus.children.drop index = trees) :
    (childrenFrom place index trees h).map path =
      (List.range' index trees.length).map fun number => number :: place.path := by
  induction trees generalizing index with
  | nil => rfl
  | cons first rest ih =>
      rw [childrenFrom, List.map_cons, ih, List.length_cons, List.range'_succ, List.map_cons]
      rfl

theorem map_path_children (place : Place root) :
    place.children.map path =
      (List.range' 0 place.focus.children.length).map fun number => number :: place.path :=
  map_path_childrenFrom place 0 _ rfl

theorem nodup_children (place : Place root) : place.children.Nodup := by
  apply List.Nodup.of_map path
  rw [map_path_children]
  refine List.Nodup.map ?_ List.nodup_range'
  intro first second same
  exact (List.cons.inj same).1

theorem parent_of_mem_childrenFrom {place child : Place root} {index : Nat} {trees : List Tree}
    {h : place.focus.children.drop index = trees}
    (member : child ∈ childrenFrom place index trees h) : child.parent? = some place := by
  induction trees generalizing index with
  | nil => cases member
  | cons first rest ih =>
      rcases List.mem_cons.mp member with rfl | member
      · rfl
      · exact ih member

theorem mem_children {place child : Place root} :
    child ∈ place.children ↔ child.parent? = some place := by
  constructor
  · exact parent_of_mem_childrenFrom
  · intro isParent
    rcases child with ⟨focus, above, leads⟩
    cases leads with
    | here => cases isParent
    | @down around _ index above before isChild =>
        rcases Option.some.inj isParent with rfl
        rcases List.getElem?_eq_some_iff.mp isChild with ⟨inside, _⟩
        have listed : index :: above.map Step.index ∈
            (Place.mk around above before).children.map path := by
          rw [map_path_children]
          refine List.mem_map.mpr ⟨index, ?_, rfl⟩
          simpa using inside
        rcases List.mem_map.mp listed with ⟨other, member, samePath⟩
        have same : other.path = (Place.mk focus (⟨around, index⟩ :: above)
          (.down before isChild)).path := samePath
        rwa [eq_of_path_eq same] at member

theorem mem_nodes {place child : Place root} :
    child ∈ place.nodes ↔ child.parent? = some place ∧ child.focus.isNode = true := by
  rw [nodes, List.mem_filter, mem_children]

/-!
# What is handed down
-/

theorem holds_focus {holds : Tree -> Prop} (atRoot : holds root)
    (handed : ∀ tree, holds tree -> ∀ child ∈ tree.children, holds child) (place : Place root) :
    holds place.focus := by
  rcases place with ⟨focus, above, leads⟩
  induction leads with
  | here => exact atRoot
  | down before isChild ih => exact handed _ ih _ (List.mem_of_getElem? isChild)

theorem ordered_focus (isUnit : root.IsUnit) (place : Place root) : place.focus.Ordered :=
  holds_focus isUnit.ordered (fun _ ordered _ member => ordered.child member) place

theorem shaped_focus (isUnit : root.IsUnit) (place : Place root) : place.focus.Shaped :=
  holds_focus isUnit.shaped (fun _ shaped _ member => shaped.child member) place

theorem seat_of_parent (isUnit : root.IsUnit) {place around : Place root} {construct : Construct}
    (isParent : place.parent? = some around) (isNode : place.focus.construct? = some construct) :
    ∃ outer, around.focus.construct? = some outer ∧
      Shape.seatsArguments outer ⟨place.focus.slot, construct⟩ = true ∧
      Shape.seatsUnit ⟨place.focus.slot, construct⟩ = true ∧
      Shape.seatsName outer ⟨place.focus.slot, construct⟩ = true := by
  have member := focus_mem_of_mem_children (mem_children.mpr isParent)
  cases hconstruct : around.focus.construct? with
  | none =>
      cases hfocus : around.focus with
      | token span => simp [hfocus, Tree.children] at member
      | extra span parts => simp [hfocus, Tree.children] at member
      | node slot other span children => simp [hfocus, Tree.construct?] at hconstruct
  | some outer =>
      have admits := (around.shaped_focus isUnit).admits hconstruct
      rcases Shape.admits_iff.mp admits with ⟨arguments, units, names, _⟩
      have isSeat : (⟨place.focus.slot, construct⟩ : Seat) ∈
          around.focus.children.filterMap Tree.seat? :=
        List.mem_filterMap.mpr ⟨_, member, Tree.seat?_eq_some.mpr ⟨rfl, isNode⟩⟩
      exact ⟨outer, rfl, arguments _ isSeat, units _ isSeat, names _ isSeat⟩

theorem parent_eq_none_of_isUnit (isUnit : root.IsUnit) {place : Place root}
    {construct : Construct} (isA : place.focus.construct? = some construct)
    (isWhole : construct.isUnit = true) : place.parent? = none := by
  cases hparent : place.parent? with
  | none => rfl
  | some around =>
      rcases seat_of_parent isUnit hparent isA with ⟨_, _, _, unit, _⟩
      rw [Shape.seatsUnit, isWhole] at unit
      cases unit

/-!
# Spans
-/

/-- A place is `upper` or lies below it. -/
inductive Under (upper : Place root) : Place root -> Prop where
  | here : Under upper upper
  | down {middle lower : Place root} :
      Under upper middle -> lower.parent? = some middle -> Under upper lower

theorem Under.trans {upper middle lower : Place root} (before : Under upper middle)
    (after : Under middle lower) : Under upper lower := by
  induction after with
  | here => exact before
  | down _ isParent ih => exact .down ih isParent

theorem Under.of_parent {upper lower : Place root} (isParent : lower.parent? = some upper) :
    Under upper lower :=
  .down .here isParent

theorem span_of_parent (isUnit : root.IsUnit) {place around : Place root}
    (isParent : place.parent? = some around) :
    around.focus.span.start ≤ place.focus.span.start ∧
      place.focus.span.start ≤ place.focus.span.stop ∧
      place.focus.span.stop ≤ around.focus.span.stop := by
  have member := focus_mem_of_mem_children (mem_children.mpr isParent)
  exact (around.ordered_focus isUnit).between.forward (List.mem_map_of_mem member)

theorem Under.span (isUnit : root.IsUnit) {upper lower : Place root} (h : Under upper lower) :
    upper.focus.span.start ≤ lower.focus.span.start ∧
      lower.focus.span.stop ≤ upper.focus.span.stop := by
  induction h with
  | here => exact ⟨Nat.le_refl _, Nat.le_refl _⟩
  | down _ isParent ih =>
      have := span_of_parent isUnit isParent
      omega

theorem pairwise_children (isUnit : root.IsUnit) (place : Place root) :
    place.children.Pairwise fun first second =>
      first.focus.span.stop ≤ second.focus.span.start := by
  have apart := (place.ordered_focus isUnit).between.pairwise
  rw [← map_focus_children, List.map_map] at apart
  exact List.pairwise_map.mp apart

end Place

end Java
end CommandWiring
