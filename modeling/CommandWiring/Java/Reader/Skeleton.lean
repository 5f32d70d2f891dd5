import CommandWiring.Java.Shape

/-!
# Skeletons

A skeleton is the shape of a program without its layout: a leaf stands for one lexeme, a gap for a
lexeme that should be there and is not, and a node groups what stands below it.
-/

namespace CommandWiring
namespace Java

inductive Skeleton where
  | leaf
  | gap
  | node (slot : Slot) (construct : Construct) (children : List Skeleton)

namespace Skeleton

def inSlot (slot : Slot) : Skeleton -> Skeleton
  | node _ construct children => node slot construct children
  | other => other

/-!
# The number of lexemes below a skeleton
-/

mutual

def leafCount : Skeleton -> Nat
  | leaf => 1
  | gap => 0
  | node _ _ children => leafCounts children

def leafCounts : List Skeleton -> Nat
  | [] => 0
  | first :: rest => leafCount first + leafCounts rest

end

end Skeleton

/-!
# Well-shaped skeletons
-/

namespace Shape

/-- Whether a node can be spelled by `children`. -/
def spells (construct : Construct) (children : List Skeleton) : Bool :=
  match children with
  | [.leaf] => true
  | _ => !construct.isWord

/-- Whether `front?` can be what a construct begins with, if it begins with anything. Only a whole
text can be empty. -/
def opens (construct : Construct) (front? : Option Skeleton) : Bool :=
  construct.isUnit ||
    match front? with
    | none => false
    | some .leaf => true
    | some .gap => false
    | some (.node _ front _) => !front.isLate

end Shape

namespace Skeleton

def seat? : Skeleton -> Option Seat
  | node slot construct _ => some ⟨slot, construct⟩
  | _ => none

mutual

def isShaped : Skeleton -> Bool
  | leaf => true
  | gap => true
  | node _ construct children =>
      Shape.admits construct (children.filterMap seat?) && Shape.opens construct children.head? &&
        Shape.spells construct children && areShaped children

def areShaped : List Skeleton -> Bool
  | [] => true
  | first :: rest => isShaped first && areShaped rest

end

end Skeleton

end Java
end CommandWiring
