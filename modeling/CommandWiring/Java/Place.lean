import CommandWiring.Java.Tree

/-!
# Places in a tree

A place is a subtree together with the way up to the root: the trees around it, the nearest first,
and under which child of each the way goes on. Two places of one tree are the same if their ways
are.
-/

namespace CommandWiring
namespace Java

structure Step where
  around : Tree
  index : Nat

/-- The way `above` leads from `root` down to `focus`. -/
inductive Leads (root : Tree) : Tree -> List Step -> Prop where
  | here : Leads root root []
  | down {around focus : Tree} {index : Nat} {above : List Step} :
      Leads root around above -> around.children[index]? = some focus ->
      Leads root focus (⟨around, index⟩ :: above)

structure Place (root : Tree) where
  focus : Tree
  above : List Step
  leads : Leads root focus above

namespace Place

variable {root : Tree}

def path (place : Place root) : List Nat :=
  place.above.map Step.index

theorem leads_unique {focus other : Tree} {above way : List Step}
    (first : Leads root focus above) (second : Leads root other way)
    (same : above.map Step.index = way.map Step.index) : focus = other ∧ above = way := by
  induction first generalizing other way with
  | here =>
      cases second with
      | here => exact ⟨rfl, rfl⟩
      | down _ _ => simp at same
  | down _ child ih =>
      cases second with
      | here => simp at same
      | down before otherChild =>
          simp only [List.map_cons, List.cons.injEq] at same
          obtain ⟨rfl, rfl⟩ := ih before same.2
          obtain rfl := same.1
          rw [child] at otherChild
          exact ⟨Option.some.inj otherChild, rfl⟩

theorem eq_of_path_eq {first second : Place root} (h : first.path = second.path) :
    first = second := by
  obtain ⟨focus, above, leads⟩ := first
  obtain ⟨other, way, otherLeads⟩ := second
  obtain ⟨rfl, rfl⟩ := leads_unique leads otherLeads h
  rfl

instance : DecidableEq (Place root) := fun first second =>
  if h : first.path = second.path then isTrue (eq_of_path_eq h)
  else isFalse fun same => h (same ▸ rfl)

/-!
# Moving about
-/

def top (root : Tree) : Place root where
  focus := root
  above := []
  leads := .here

theorem leads_parent {focus around : Tree} {index : Nat} {above : List Step}
    (h : Leads root focus (⟨around, index⟩ :: above)) : Leads root around above := by
  cases h with
  | down before _ => exact before

def parent? (place : Place root) : Option (Place root) :=
  match place with
  | ⟨_, [], _⟩ => none
  | ⟨_, ⟨around, _⟩ :: above, leads⟩ => some ⟨around, above, leads_parent leads⟩

def child? (place : Place root) (index : Nat) : Option (Place root) :=
  match h : place.focus.children[index]? with
  | some focus => some ⟨focus, ⟨place.focus, index⟩ :: place.above, .down place.leads h⟩
  | none => none

theorem getElem?_of_drop {trees rest : List Tree} {first : Tree} {index : Nat}
    (h : trees.drop index = first :: rest) : trees[index]? = some first := by
  have := congrArg List.head? h
  simpa [List.head?_drop] using this

theorem drop_succ_of_drop {trees rest : List Tree} {first : Tree} {index : Nat}
    (h : trees.drop index = first :: rest) : trees.drop (index + 1) = rest := by
  rw [← List.tail_drop, h, List.tail_cons]

def childrenFrom (place : Place root) (index : Nat) :
    (trees : List Tree) -> place.focus.children.drop index = trees -> List (Place root)
  | [], _ => []
  | focus :: rest, h =>
      ⟨focus, ⟨place.focus, index⟩ :: place.above, .down place.leads (getElem?_of_drop h)⟩ ::
        childrenFrom place (index + 1) rest (drop_succ_of_drop h)

def children (place : Place root) : List (Place root) :=
  childrenFrom place 0 place.focus.children rfl

def nodes (place : Place root) : List (Place root) :=
  place.children.filter fun child => child.focus.isNode

def fills (place : Place root) (slot : Slot) : Bool :=
  match place.above with
  | [] => false
  | ⟨around, index⟩ :: _ => around.children.findIdx? (fun child => child.slot == slot) == some index

def inSlot? (place : Place root) (slot : Slot) : Option (Place root) :=
  place.children.find? fun child => child.focus.slot == slot

end Place
end Java
end CommandWiring
