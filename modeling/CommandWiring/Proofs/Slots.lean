import CommandWiring.Proofs.View

/-!
# Slots among nodes

Tokens and extras are in no slot, so which child fills a slot can be read off the nodes alone. The
kind and the role of a place depend on its construct, on the construct around it, and on the slots
that it fills.
-/

namespace CommandWiring
namespace Java

def Tree.nodes (tree : Tree) : List Tree :=
  tree.children.filter Tree.isNode

theorem Tree.isNode_of_construct {tree : Tree} {construct : Construct}
    (isConstruct : tree.construct? = some construct) : tree.isNode = true := by
  rw [isNode, isConstruct]
  rfl

theorem Tree.nodes_of_not_isNode {tree : Tree} (notNode : tree.isNode = false) :
    tree.nodes = [] := by
  cases tree with
  | token span => rfl
  | extra span parts => rfl
  | node slot construct span children => cases notNode

/-- Whether a tree is a node or has parts that fit nowhere. Tokens and comments are neither. -/
def Tree.isContent (tree : Tree) : Bool :=
  tree.isNode || !tree.parts.isEmpty

def Tree.contents (tree : Tree) : List Tree :=
  tree.parts.filter Tree.isContent

theorem Tree.filter_isNode_contents {tree : Tree} (isNode : tree.isNode = true) :
    tree.contents.filter Tree.isNode = tree.nodes := by
  cases tree with
  | token span => cases isNode
  | extra span parts => cases isNode
  | node slot construct span children =>
      rw [contents, nodes, List.filter_filter]
      refine List.filter_congr fun child _ => ?_
      rw [isContent]
      cases child.isNode <;> rfl

theorem Tree.find?_children_eq (tree : Tree) {accepts : Tree -> Bool}
    (onlyNodes : ∀ child, accepts child = true -> child.isNode = true) :
    tree.children.find? accepts = tree.nodes.find? accepts := by
  rw [nodes, List.find?_filter]
  congr 1
  funext child
  rw [Bool.eq_iff_iff, decide_eq_true_iff]
  exact ⟨fun accepted => ⟨onlyNodes child accepted, accepted⟩, And.right⟩

theorem Tree.filter_children_eq (tree : Tree) {accepts : Tree -> Bool}
    (onlyNodes : ∀ child, accepts child = true -> child.isNode = true) :
    tree.children.filter accepts = tree.nodes.filter accepts := by
  rw [nodes, List.filter_filter]
  congr 1
  funext child
  cases accepted : accepts child with
  | true => rw [onlyNodes child accepted, Bool.and_self]
  | false => rw [Bool.false_and]

namespace Place

variable {root copy : Tree}

theorem map_focus_nodes (place : Place root) : place.nodes.map focus = place.focus.nodes := by
  rw [nodes, Tree.nodes, ← map_focus_children, List.filter_map]
  rfl

theorem inSlot?_eq_find?_nodes (place : Place root) {slot : Slot} (named : slot ≠ .plain) :
    place.inSlot? slot = place.nodes.find? fun child => child.focus.slot == slot := by
  rw [inSlot?, nodes, List.find?_filter]
  congr 1
  funext child
  rw [Bool.eq_iff_iff, decide_eq_true_iff, beq_iff_eq]
  constructor
  · intro isSlot
    exact ⟨isNode_of_slot isSlot named, isSlot⟩
  · exact And.right

theorem fills_eq_of_listed {place child : Place root} {index : Nat} {slot : Slot}
    (named : slot ≠ .plain) (listed : place.nodes[index]? = some child) :
    child.fills slot =
      ((place.focus.nodes.map Tree.slot).findIdx? (fun other => other == slot) == some index) := by
  have isParent := (mem_nodes.mp (List.mem_of_getElem? listed)).1
  rw [Bool.eq_iff_iff, beq_iff_eq]
  have isFilled : child.fills slot = true ↔ place.inSlot? slot = some child := by
    rw [inSlot?_eq_some]
    exact ⟨fun fills => ⟨isParent, fills⟩, And.right⟩
  rw [isFilled, inSlot?_eq_find?_nodes place named, List.find?_eq_bind_findIdx?_getElem?,
    Option.bind_eq_some_iff, ← map_focus_nodes, List.map_map, List.findIdx?_map]
  constructor
  · intro given
    rcases given with ⟨number, found, alsoListed⟩
    have bound := (List.getElem?_eq_some_iff.mp listed).1
    rcases (List.getElem?_inj bound place.nodup_nodes).mp (listed.trans alsoListed.symm) with rfl
    exact found
  · intro found
    exact ⟨index, found, listed⟩

theorem slot_of_fills {place around : Place root} {slot : Slot}
    (isParent : place.parent? = some around) (fills : place.fills slot = true) :
    place.focus.slot = slot := by
  have found := inSlot?_eq_some.mpr ⟨isParent, fills⟩
  have isSlot := List.find?_some found
  exact beq_iff_eq.mp isSlot

theorem fills_eq_false {place : Place root} {slot : Slot} (different : place.focus.slot ≠ slot) :
    place.fills slot = false := by
  rw [Bool.eq_false_iff]
  intro fills
  cases isParent : place.parent? with
  | none =>
      rcases place with ⟨focus, above, leads⟩
      cases above with
      | nil => cases fills
      | cons step above => cases isParent
  | some around => exact different (slot_of_fills isParent fills)

/-!
# What stands around a place
-/

def around? (place : Place root) : Option Construct :=
  place.parent?.bind fun around => around.focus.construct?

theorem around?_of_parent {place around : Place root} (isParent : place.parent? = some around) :
    place.around? = around.focus.construct? := by
  rw [around?, isParent]
  rfl

theorem kind_congr {place : Place root} {other : Place copy}
    (construct : place.focus.construct? = other.focus.construct?)
    (names : place.fills .name = other.fills .name)
    (around : place.isA .variableDeclarator = true -> place.around? = other.around?) :
    place.kind = other.kind := by
  unfold kind
  rw [← construct, ← names]
  split
  all_goals try rfl
  next isDeclarator =>
    have same := around (by rw [Place.isA, isDeclarator]; rfl)
    unfold around? at same
    generalize place.parent? = above?, other.parent? = otherAbove? at same ⊢
    cases above? with
    | none =>
        cases otherAbove? with
        | none => rfl
        | some above =>
            have noConstruct : none = above.focus.construct? := same
            simp [Place.isA, ← noConstruct]
    | some above =>
        cases otherAbove? with
        | none =>
            have noConstruct : above.focus.construct? = none := same
            simp [Place.isA, noConstruct]
        | some otherAbove =>
            have sameConstruct : above.focus.construct? = otherAbove.focus.construct? := same
            simp [Place.isA, sameConstruct]

theorem role_congr {place : Place root} {other : Place copy}
    (around : place.wrapped.around? = other.wrapped.around?)
    (fills : ∀ slot, slot ≠ .plain -> place.wrapped.fills slot = other.wrapped.fills slot) :
    place.role = other.role := by
  unfold role beyond?
  unfold around? at around
  rw [fills .object (by decide), fills .body (by decide), fills .value (by decide)]
  generalize place.wrapped.parent? = above?, other.wrapped.parent? = otherAbove? at around ⊢
  cases above? with
  | none =>
      cases otherAbove? with
      | none => rfl
      | some otherAbove =>
          have noConstruct : none = otherAbove.focus.construct? := around
          dsimp only
          rw [← noConstruct]
  | some above =>
      cases otherAbove? with
      | none =>
          have noConstruct : above.focus.construct? = none := around
          dsimp only
          rw [noConstruct]
      | some otherAbove =>
          have sameConstruct : above.focus.construct? = otherAbove.focus.construct? := around
          dsimp only
          rw [sameConstruct]

end Place
end Java
end CommandWiring
