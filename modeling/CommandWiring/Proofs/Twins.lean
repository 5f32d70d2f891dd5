import Mathlib.Data.List.Forall2
import Mathlib.Data.Set.Function
import CommandWiring.Proofs.Descent

/-!
# Twins

Two nodes of two structures are twins if the same way leads to them from the roots. In coherent
views a node has one twin at most, and parents of twins are twins. If twins always have equally many
children, every node has a twin.
-/

namespace CommandWiring
namespace SyntaxNode

variable {N M : Type} [SyntaxNode N] [SyntaxNode M]

inductive Twins (root : N) (other : M) : N -> M -> Prop where
  | here : Twins root other root other
  | down {node child : N} {twin childTwin : M} {index : Nat} :
      Twins root other node twin -> (children node)[index]? = some child ->
      (children twin)[index]? = some childTwin -> Twins root other child childTwin

namespace Twins

variable {root node : N} {other twin : M}

theorem symm (twins : Twins root other node twin) : Twins other root twin node := by
  induction twins with
  | here => exact .here
  | down _ child childTwin ih => exact .down ih childTwin child

theorem reached (twins : Twins root other node twin) :
    ∃ depth, Descends root depth node ∧ Descends other depth twin := by
  induction twins with
  | here => exact ⟨0, .here, .here⟩
  | down _ child childTwin ih =>
      rcases ih with ⟨depth, above, aboveTwin⟩
      exact ⟨depth + 1, above.down (List.mem_of_getElem? child),
        aboveTwin.down (List.mem_of_getElem? childTwin)⟩

theorem related {related : N -> M -> Prop} (roots : related root other)
    (handed : ∀ node twin, related node twin ->
      List.Forall₂ related (children node) (children twin))
    (twins : Twins root other node twin) : related node twin := by
  induction twins with
  | here => exact roots
  | down _ child childTwin ih =>
      rcases List.getElem?_eq_some_iff.mp child with ⟨bound, rfl⟩
      rcases List.getElem?_eq_some_iff.mp childTwin with ⟨twinBound, rfl⟩
      exact (handed _ _ ih).get bound twinBound

/-!
# Twins in coherent views
-/

theorem parents (coherent : Coherent root) (otherCoherent : Coherent other)
    (twins : Twins root other node twin) :
    Option.Rel (Twins root other) (parent? node) (parent? twin) := by
  cases twins with
  | here =>
      rw [coherent.top, otherCoherent.top]
      exact .none
  | down above child childTwin =>
      rcases above.reached with ⟨_, reached, twinReached⟩
      rw [coherent.back reached (List.mem_of_getElem? child),
        otherCoherent.back twinReached (List.mem_of_getElem? childTwin)]
      exact .some above

theorem unique (coherent : Coherent root) {first second : M}
    (one : Twins root other node first) (another : Twins root other node second) :
    first = second := by
  induction one generalizing second with
  | here =>
      cases another with
      | here => rfl
      | down above child _ =>
          rcases above.reached with ⟨_, reached, _⟩
          have isParent := coherent.back reached (List.mem_of_getElem? child)
          rw [coherent.top] at isParent
          cases isParent
  | down above child childTwin ih =>
      rcases above.reached with ⟨_, reached, _⟩
      have member := List.mem_of_getElem? child
      cases another with
      | here =>
          have isParent := coherent.back reached member
          rw [coherent.top] at isParent
          cases isParent
      | down alsoAbove alsoChild alsoTwin =>
          rcases alsoAbove.reached with ⟨_, alsoReached, _⟩
          rcases coherent.eq_of_mem_children reached alsoReached member
            (List.mem_of_getElem? alsoChild) with rfl
          rcases ih alsoAbove with rfl
          have bound := (List.getElem?_eq_some_iff.mp child).1
          rcases (List.getElem?_inj bound (coherent.distinct reached)).mp
            (child.trans alsoChild.symm) with rfl
          rw [childTwin] at alsoTwin
          exact Option.some.inj alsoTwin

theorem biUnique (coherent : Coherent root) (otherCoherent : Coherent other) :
    Relator.BiUnique (Twins root other) :=
  ⟨fun _ _ _ one another => one.symm.unique otherCoherent another.symm,
    fun _ _ _ one another => one.unique coherent another⟩

end Twins

/-!
# Structures of the same form
-/

/-- Twins have equally many children. -/
def SameForm (root : N) (other : M) : Prop :=
  ∀ node twin, Twins root other node twin -> (children node).length = (children twin).length

namespace SameForm

variable {root : N} {other : M}

theorem symm (same : SameForm root other) : SameForm other root := by
  intro node twin twins
  exact (same twin node twins.symm).symm

theorem of_related {related : N -> M -> Prop} (roots : related root other)
    (handed : ∀ node twin, related node twin ->
      List.Forall₂ related (children node) (children twin)) : SameForm root other := by
  intro node twin twins
  exact (handed node twin (twins.related roots handed)).length_eq

theorem children (same : SameForm root other) {node : N} {twin : M}
    (twins : Twins root other node twin) :
    List.Forall₂ (Twins root other) (SyntaxNode.children node) (SyntaxNode.children twin) := by
  refine List.forall₂_of_length_eq_of_get (same node twin twins) ?_
  intro index bound twinBound
  exact twins.down (List.getElem?_eq_getElem bound) (List.getElem?_eq_getElem twinBound)

theorem exists_twin (same : SameForm root other) {depth : Nat} {node : N}
    (reached : Descends root depth node) : ∃ twin, Twins root other node twin := by
  induction reached with
  | here => exact ⟨other, .here⟩
  | down _ member ih =>
      rcases ih with ⟨twin, twins⟩
      rcases List.getElem?_of_mem member with ⟨index, isChild⟩
      have bound : index < (SyntaxNode.children twin).length := by
        rw [← same _ _ twins]
        exact (List.getElem?_eq_some_iff.mp isChild).1
      exact ⟨_, twins.down isChild (List.getElem?_eq_getElem bound)⟩

theorem exists_map (same : SameForm root other) :
    ∃ twin : N -> M, ∀ node, (∃ depth, Descends root depth node) ->
      Twins root other node (twin node) := by
  have chosen (node : N) :
      ∃ twin, (∃ depth, Descends root depth node) -> Twins root other node twin := by
    by_cases given : ∃ depth, Descends root depth node
    · rcases given with ⟨depth, reached⟩
      rcases same.exists_twin reached with ⟨twin, twins⟩
      exact ⟨twin, fun _ => twins⟩
    · exact ⟨other, fun reached => absurd reached given⟩
  exact ⟨fun node => (chosen node).choose, fun node => (chosen node).choose_spec⟩

end SameForm

/-!
# The map to the twins
-/

section

variable {root : N} {other : M} {twin : N -> M}

theorem bijOn_twin (coherent : Coherent root) (otherCoherent : Coherent other)
    (same : SameForm root other)
    (isTwin : ∀ node, (∃ depth, Descends root depth node) -> Twins root other node (twin node)) :
    Set.BijOn twin {node | ∃ depth, Descends root depth node}
      {node | ∃ depth, Descends other depth node} := by
  refine ⟨?_, ?_, ?_⟩
  · intro node reached
    rcases (isTwin node reached).reached with ⟨depth, _, twinReached⟩
    exact ⟨depth, twinReached⟩
  · intro first isFirst second isSecond eq
    have one := (isTwin first isFirst).symm
    rw [eq] at one
    exact one.unique otherCoherent (isTwin second isSecond).symm
  · rintro node ⟨depth, reached⟩
    rcases same.symm.exists_twin reached with ⟨origin, twins⟩
    rcases twins.reached with ⟨above, _, originReached⟩
    exact ⟨origin, ⟨above, originReached⟩,
      (isTwin origin ⟨above, originReached⟩).unique coherent twins.symm⟩

end

end SyntaxNode
end CommandWiring
