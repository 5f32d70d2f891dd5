import CommandWiring.Proofs.Walk
import Mathlib.Data.List.Infix

/-!
# The calls of a walk

A walk may stop early, so it need not visit all of its listing. To tell what it visits, the visitor
keeps a record of its calls. The record is the listing, cut right behind the first node on which the
visitor is done.
-/

namespace CommandWiring
namespace SyntaxNode

variable {N : Type} {β : Type}

/-!
# Records of calls
-/

/-- `visit`, with a record of the nodes on which it has been called. -/
def recording (visit : N -> β -> ForInStep β) (node : N) (state : β × List N) :
    ForInStep (β × List N) :=
  match visit node state.1 with
  | .done result => .done (result, state.2 ++ [node])
  | .yield next => .yield (next, state.2 ++ [node])

/-- The nodes of a list on which `visit` is called, if it visits one after the other. -/
def callsOn (visit : N -> β -> ForInStep β) : List N -> β -> List N
  | [], _ => []
  | node :: rest, state =>
      match visit node state with
      | .done _ => [node]
      | .yield next => node :: callsOn visit rest next

theorem visitList_recording (visit : N -> β -> ForInStep β) (nodes calls : List N) (state : β) :
    visitList (recording visit) nodes (state, calls) =
      (visitList visit nodes state, calls ++ callsOn visit nodes state) := by
  induction nodes generalizing calls state with
  | nil => rw [callsOn, List.append_nil]; rfl
  | cons node rest ih =>
      rw [visitList, visitList, callsOn, recording]
      cases visit node state with
      | done result => rfl
      | yield next =>
          change visitList (recording visit) rest (next, calls ++ [node]) = _
          rw [ih, List.append_assoc]
          rfl

theorem callsOn_of_yield {visit : N -> β -> ForInStep β}
    (goesOn : ∀ node state, ∃ next, visit node state = .yield next) (nodes : List N) (state : β) :
    callsOn visit nodes state = nodes := by
  induction nodes generalizing state with
  | nil => rfl
  | cons node rest ih =>
      rcases goesOn node state with ⟨next, isStep⟩
      rw [callsOn, isStep]
      exact congrArg (node :: ·) (ih next)

/-!
# Cuts
-/

/-- `calls` is `nodes` up to the first node on which `visit` is done. Each node finds the state that
the calls before it have left. -/
structure IsCut (visit : N -> β -> ForInStep β) (init : β) (nodes calls : List N) : Prop where
  front : calls <+: nodes
  goesOn : ∀ before node after, calls = before ++ node :: after -> after ≠ [] ->
    ∃ next, visit node (visitList visit before init) = .yield next
  stops : calls ≠ nodes -> ∃ before node result, calls = before ++ [node] ∧
    visit node (visitList visit before init) = .done result

namespace IsCut

variable {visit : N -> β -> ForInStep β} {init next result : β} {node : N} {rest calls : List N}

theorem nil (visit : N -> β -> ForInStep β) (init : β) : IsCut visit init [] [] where
  front := List.nil_prefix
  goesOn := by
    intro before node after isNil
    exact absurd isNil.symm (by simp)
  stops := by
    intro different
    exact absurd rfl different

theorem done (isDone : visit node init = .done result) (rest : List N) :
    IsCut visit init (node :: rest) [node] where
  front := List.prefix_append [node] rest
  goesOn := by
    intro before other after isSingle notLast
    rcases List.append_eq_singleton_iff.mp isSingle.symm with ⟨_, isEnd⟩ | ⟨_, isNil⟩
    · exact absurd (List.cons.inj isEnd).2 notLast
    · cases isNil
  stops := by
    intro _
    exact ⟨[], node, result, rfl, isDone⟩

theorem yield (goesOn : visit node init = .yield next) (cut : IsCut visit next rest calls) :
    IsCut visit init (node :: rest) (node :: calls) where
  front := List.cons_prefix_cons.mpr ⟨rfl, cut.front⟩
  goesOn := by
    intro before other after isSplit notLast
    cases before with
    | nil =>
        rcases List.cons.inj isSplit with ⟨rfl, _⟩
        exact ⟨next, goesOn⟩
    | cons first before =>
        rcases List.cons.inj isSplit with ⟨rfl, isRest⟩
        rw [visitList, goesOn]
        exact cut.goesOn before other after isRest notLast
  stops := by
    intro different
    have restDiffers : calls ≠ rest := fun same => different (congrArg (node :: ·) same)
    rcases cut.stops restDiffers with ⟨before, last, result, isRest, isDone⟩
    refine ⟨node :: before, last, result, congrArg (node :: ·) isRest, ?_⟩
    rw [visitList, goesOn]
    exact isDone

end IsCut

theorem isCut_callsOn (visit : N -> β -> ForInStep β) (nodes : List N) (init : β) :
    IsCut visit init nodes (callsOn visit nodes init) := by
  induction nodes generalizing init with
  | nil => exact .nil visit init
  | cons node rest ih =>
      rw [callsOn]
      cases isStep : visit node init with
      | done result => exact .done isStep rest
      | yield next => exact .yield isStep (ih next)

/-!
# Walks
-/

variable [SyntaxNode N]

theorem calls_walk (root : N) (visit : N -> β -> ForInStep β) (init : β) :
    walk root (init, []) (recording visit) =
      (walk root init visit, callsOn visit (preorder maxTreeDepth root) init) := by
  rw [walk_eq_visitList, walk_eq_visitList, visitList_recording, List.nil_append]

/-- A walk calls its visitor on the nodes at most `maxTreeDepth` levels below the root, each before
those below it and those below one child before the next child, and on none behind the first on
which the visitor is done. A search for all nodes of some sort finds those of the listing in the
same order, and a search for one finds the first of them. -/
theorem walk_visits_preorder (root : N) :
    (∀ (β : Type) (visit : N -> β -> ForInStep β) (init : β), ∃ calls,
      walk root (init, []) (recording visit) = (walk root init visit, calls) ∧
        IsCut visit init (preorder maxTreeDepth root) calls) ∧
      ∀ wanted : N -> Bool,
        collectAll root wanted = (preorder maxTreeDepth root).filter wanted ∧
          findFirst? root wanted = (collectAll root wanted).head? := by
  constructor
  · intro β visit init
    exact ⟨_, calls_walk root visit init, isCut_callsOn visit _ init⟩
  · intro wanted
    have listed := collectAll_eq_filter root wanted
    refine ⟨listed, ?_⟩
    rw [listed, findFirst?_eq_find?, List.head?_filter]

end SyntaxNode
end CommandWiring
