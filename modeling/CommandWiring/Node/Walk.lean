import CommandWiring.Node.Basic

/-!
# Walks and searches

A walk visits the nodes below a root in document order, at most `maxTreeDepth` levels down. It keeps
its own stack, so a deep tree needs no deep recursion, and it ends on cyclic structures because the
depth is bounded.
-/

namespace CommandWiring
namespace SyntaxNode

variable {N : Type} [SyntaxNode N] {β : Type}

/-- Most levels below its start that a walk, and most steps above its start that an ancestor search,
goes through. -/
def maxTreeDepth : Nat :=
  4096

/-- The nodes at most `depth` levels below `node`, each before those below it. -/
def preorder : Nat -> N -> List N
  | 0, node => [node]
  | depth + 1, node => node :: (children node).flatMap (preorder depth)

/-!
# The explicit stack

A stack entry is a node with the number of levels still allowed below it. Every step takes one entry
away from the listing that the stack stands for, which is why the loop ends.
-/

/-- The part of a walk that a stack stands for. -/
def pending (stack : List (N × Nat)) : List N :=
  stack.flatMap fun entry => preorder entry.2 entry.1

theorem pending_cons_zero (node : N) (stack : List (N × Nat)) :
    pending ((node, 0) :: stack) = node :: pending stack := by
  simp [pending, preorder]

theorem pending_cons_succ (node : N) (depth : Nat) (stack : List (N × Nat)) :
    pending ((node, depth + 1) :: stack) =
      node :: pending ((children node).map (fun child => (child, depth)) ++ stack) := by
  simp [pending, preorder, List.flatMap_map]

def walkStack (visit : N -> β -> ForInStep β) (stack : List (N × Nat)) (state : β) : β :=
  match stack with
  | [] => state
  | (node, depth) :: rest =>
      match visit node state with
      | .done result => result
      | .yield next =>
          match depth with
          | 0 => walkStack visit rest next
          | below + 1 =>
              walkStack visit ((children node).map (fun child => (child, below)) ++ rest) next
termination_by (pending stack).length
decreasing_by
  · simp [pending_cons_zero]
  · simp [pending_cons_succ]

/-- Visits the nodes below `root`, `root` first, until `visit` is done. -/
def walk (root : N) (init : β) (visit : N -> β -> ForInStep β) : β :=
  walkStack visit [(root, maxTreeDepth)] init

/-!
# Searches below a node
-/

def findFirst? (root : N) (wanted : N -> Bool) : Option N :=
  walk root none fun node _ => if wanted node then .done (some node) else .yield none

def collectAll (root : N) (wanted : N -> Bool) : List N :=
  (walk root #[] fun node found => .yield (if wanted node then found.push node else found)).toList

/-!
# Searches above a node
-/

/-- The nearest of the first `steps` strict ancestors that is wanted. -/
def ancestorWithin? : Nat -> N -> (N -> Bool) -> Option N
  | 0, _, _ => none
  | steps + 1, node, wanted =>
      match parent? node with
      | none => none
      | some above => if wanted above then some above else ancestorWithin? steps above wanted

def findAncestor? (node : N) (wanted : N -> Bool) : Option N :=
  ancestorWithin? maxTreeDepth node wanted

def enclosing? (node : N) (wanted : NodeKind) : Option N :=
  findAncestor? node (ofKind wanted)

/-- Whether `node` stands in a constructor that `owner` declares itself: the nearest constructor
around the node has `owner` as its nearest class. -/
def inConstructorOf [DecidableEq N] (owner : N) (node : N) : Bool :=
  match enclosing? node .constructorDeclaration with
  | none => false
  | some declaration => enclosing? declaration .classDeclaration == some owner

end SyntaxNode
end CommandWiring
