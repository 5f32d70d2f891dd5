import CommandWiring.Node.Walk

/-!
# Searches as operations on a listing

A walk keeps a stack of its own. What it visits is the listing that the stack stands for, so a
search below a node is the search for an element of `preorder`.
-/

namespace CommandWiring
namespace SyntaxNode

variable {N : Type} {β : Type}

/-!
# Visiting a list
-/

/-- Visits the nodes of a list one after the other, until `visit` is done. -/
def visitList (visit : N -> β -> ForInStep β) : List N -> β -> β
  | [], state => state
  | node :: rest, state =>
      match visit node state with
      | .done result => result
      | .yield next => visitList visit rest next

theorem visitList_find (wanted : N -> Bool) (nodes : List N) :
    visitList (fun node _ => if wanted node then .done (some node) else .yield none) nodes none =
      nodes.find? wanted := by
  induction nodes with
  | nil => rfl
  | cons node rest ih =>
      rw [visitList]
      cases h : wanted node with
      | true => simp [h]
      | false => simpa [h] using ih

theorem visitList_filter (wanted : N -> Bool) (nodes : List N) (found : Array N) :
    (visitList (fun node found => .yield (if wanted node then found.push node else found)) nodes
      found).toList = found.toList ++ nodes.filter wanted := by
  induction nodes generalizing found with
  | nil => simp [visitList]
  | cons node rest ih =>
      rw [visitList]
      cases h : wanted node with
      | true => simp [ih, h]
      | false => simp [ih, h]

/-!
# The stack of a walk
-/

variable [SyntaxNode N]

theorem walkStack_eq_visitList (visit : N -> β -> ForInStep β) (stack : List (N × Nat))
    (state : β) : walkStack visit stack state = visitList visit (pending stack) state := by
  fun_induction walkStack visit stack state with
  | case1 => rfl
  | case2 state node depth rest result hdone =>
      cases depth with
      | zero =>
          rw [pending_cons_zero]
          simp [visitList, hdone]
      | succ below =>
          rw [pending_cons_succ]
          simp [visitList, hdone]
  | case3 state node rest next hyield ih =>
      rw [pending_cons_zero, ih]
      simp [visitList, hyield]
  | case4 state node rest next hyield below ih =>
      rw [pending_cons_succ, visitList, hyield]
      simpa using ih

theorem walk_eq_visitList (root : N) (init : β) (visit : N -> β -> ForInStep β) :
    walk root init visit = visitList visit (preorder maxTreeDepth root) init := by
  rw [walk, walkStack_eq_visitList]
  simp [pending]

/-!
# Searches
-/

theorem findFirst?_eq_find? (root : N) (wanted : N -> Bool) :
    findFirst? root wanted = (preorder maxTreeDepth root).find? wanted := by
  rw [findFirst?, walk_eq_visitList, visitList_find]

theorem collectAll_eq_filter (root : N) (wanted : N -> Bool) :
    collectAll root wanted = (preorder maxTreeDepth root).filter wanted := by
  rw [collectAll, walk_eq_visitList, visitList_filter]
  simp

end SyntaxNode
end CommandWiring
