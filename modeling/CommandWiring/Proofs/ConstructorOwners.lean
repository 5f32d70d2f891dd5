import CommandWiring.Java.Reader
import CommandWiring.Proofs.ConstructorScopes
import CommandWiring.Proofs.View

/-!
# Owners of constructors

A search above a node of a document that is not too deep goes all the way to the top, so it finds
the nearest ancestor. A constructor that stands right in the body of a class has that class for its
owner. A constructor of an enumeration or a record stands in no body of a class, and its owner is
the nearest class around it all the same.
-/

namespace CommandWiring

namespace SyntaxNode

variable {N : Type} [SyntaxNode N]

/-- `upper` is the nearest strict ancestor of its kind. -/
def NearestAbove (wanted : NodeKind) (upper node : N) : Prop :=
  ∃ steps, IsNearest (ofKind wanted) steps node upper

theorem NearestAbove.unique {wanted : NodeKind} {first second node : N}
    (one : NearestAbove wanted first node) (other : NearestAbove wanted second node) :
    first = second := by
  rcases one with ⟨_, isFirst⟩
  rcases other with ⟨_, isSecond⟩
  exact (isFirst.unique isSecond).2

theorem Coherent.depth_of_above? {root node upper : N} (coherent : Coherent root)
    {depth steps : Nat} (reached : Descends root depth node)
    (isAbove : above? steps node = some upper) :
    ∃ rest, depth = rest + steps ∧ Descends root rest upper := by
  rcases coherent.descends_of_above? reached isAbove with ⟨below, rest, upperReached⟩
  exact ⟨rest, coherent.depth_unique reached (upperReached.trans below), upperReached⟩

theorem NearestAbove.reached {root node upper : N} (coherent : Coherent root) {depth : Nat}
    (reached : Descends root depth node) {wanted : NodeKind}
    (nearest : NearestAbove wanted upper node) : ∃ less, Descends root less upper := by
  rcases nearest with ⟨_, isNearest⟩
  rcases coherent.depth_of_above? reached isNearest.above with ⟨rest, _, upperReached⟩
  exact ⟨rest, upperReached⟩

/-- In a tree that is not too deep, the bound of an ancestor search cuts nothing off. -/
theorem enclosing?_eq_some_iff_nearestAbove {root node upper : N} (coherent : Coherent root)
    (height : HeightAtMost maxTreeDepth root) {depth : Nat} (reached : Descends root depth node)
    {wanted : NodeKind} : enclosing? node wanted = some upper ↔ NearestAbove wanted upper node := by
  constructor
  · intro found
    rcases ancestorWithin?_eq_some.mp found with ⟨steps, _, isNearest⟩
    exact ⟨steps, isNearest⟩
  · rintro ⟨steps, isNearest⟩
    refine ancestorWithin?_eq_some.mpr ⟨steps, ?_, isNearest⟩
    rcases coherent.depth_of_above? reached isNearest.above with ⟨rest, isDepth, _⟩
    have low := height depth node reached
    omega

end SyntaxNode

namespace Java
namespace Document

open SyntaxNode

variable {document : Document}

def declares (owner declaration : document.Node) : Bool :=
  match parent? declaration with
  | some body => body.place.isA .classBody && parent? body == some owner
  | none => false

theorem declares_iff {owner declaration : document.Node} :
    declares owner declaration = true ↔
      ∃ body, parent? declaration = some body ∧ body.place.isA .classBody = true ∧
        parent? body = some owner := by
  rw [declares]
  cases parent? declaration with
  | none => simp
  | some body => simp

theorem kind_of_classBody {body : document.Node} (isBody : body.place.isA .classBody = true) :
    kind body = .other := by
  change body.place.kind = .other
  rw [Place.kind, Place.construct_of_isA isBody]

theorem nearestAbove_of_declares {owner declaration : document.Node}
    (isClass : kind owner = .classDeclaration) (isDeclared : declares owner declaration = true) :
    NearestAbove .classDeclaration owner declaration := by
  rcases declares_iff.mp isDeclared with ⟨body, isParent, isBody, isOwner⟩
  have bodyIsNone : ofKind .classDeclaration body = false := by
    rw [ofKind, kind_of_classBody isBody]
    rfl
  refine ⟨1, (isNearest_succ isParent bodyIsNone).mpr (isNearest_zero isOwner ?_)⟩
  exact beq_iff_eq.mpr isClass

/-- A node is in a constructor of a class exactly if the class declares the nearest constructor
around the node, or no class declares that constructor and the class is the nearest one around it.
-/
theorem inConstructorOf_iff_declares (height : HeightAtMost maxTreeDepth document.rootNode)
    {depth : Nat} {owner node : document.Node} (reached : Descends document.rootNode depth node)
    (isClass : kind owner = .classDeclaration) :
    inConstructorOf owner node = true ↔
      ∃ declaration, NearestAbove .constructorDeclaration declaration node ∧
        (declares owner declaration = true ∨
          ((∀ other, kind other = .classDeclaration -> declares other declaration = false) ∧
            NearestAbove .classDeclaration owner declaration)) := by
  have coherent := document.coherent
  rw [Search.inConstructorOf_iff]
  constructor
  · rintro ⟨declaration, isDeclaration, isOwner⟩
    have around := (enclosing?_eq_some_iff_nearestAbove coherent height reached).mp isDeclaration
    rcases around.reached coherent reached with ⟨_, declarationReached⟩
    have nearest :=
      (enclosing?_eq_some_iff_nearestAbove coherent height declarationReached).mp isOwner
    refine ⟨declaration, around, ?_⟩
    cases isDeclared : declares owner declaration with
    | true => exact Or.inl rfl
    | false =>
        refine Or.inr ⟨?_, nearest⟩
        intro other otherIsClass
        rw [Bool.eq_false_iff]
        intro otherDeclares
        rcases nearest.unique (nearestAbove_of_declares otherIsClass otherDeclares) with rfl
        rw [isDeclared] at otherDeclares
        cases otherDeclares
  · rintro ⟨declaration, around, owned⟩
    rcases around.reached coherent reached with ⟨_, declarationReached⟩
    refine ⟨declaration,
      (enclosing?_eq_some_iff_nearestAbove coherent height reached).mpr around,
      (enclosing?_eq_some_iff_nearestAbove coherent height declarationReached).mpr ?_⟩
    rcases owned with isDeclared | ⟨_, nearest⟩
    · exact nearestAbove_of_declares isClass isDeclared
    · exact nearest

theorem inConstructorOf_iff_declares_at_lambda :
    let document := parse "class A{A(){r(()->new S());}}"
    HeightAtMost maxTreeDepth document.rootNode ∧
      ∃ owner ∈ preorder 12 document.rootNode, ∃ lambda ∈ preorder 12 document.rootNode,
        kind owner = .classDeclaration ∧ kind lambda = .lambda ∧
          (inConstructorOf owner lambda = true ↔
            ∃ declaration, NearestAbove .constructorDeclaration declaration lambda ∧
              (declares owner declaration = true ∨
                ((∀ other, kind other = .classDeclaration -> declares other declaration = false) ∧
                  NearestAbove .classDeclaration owner declaration))) := by
  intro document
  have low : HeightAtMost 12 document.rootNode :=
    heightAtMost_of_level_eq_nil (List.isEmpty_iff.mp (by decide +kernel))
  have height : HeightAtMost maxTreeDepth document.rootNode := low.mono (by decide)
  have nodes : ∃ owner ∈ preorder 12 document.rootNode, ∃ lambda ∈ preorder 12 document.rootNode,
      kind owner = .classDeclaration ∧ kind lambda = .lambda := by
    decide +kernel
  rcases nodes with ⟨owner, isNode, lambda, alsoNode, isClass, isLambda⟩
  rcases mem_preorder.mp alsoNode with ⟨depth, _, reached⟩
  exact ⟨height, owner, isNode, lambda, alsoNode, isClass, isLambda,
    inConstructorOf_iff_declares height reached isClass⟩

/-- A lambda in a constructor of an enumeration is in a constructor of the class around the
enumeration, which does not declare it. -/
theorem inConstructorOf_at_enum_constructor :
    let document := parse "class A{enum E{X;E(){r(()->new S());}}}"
    HeightAtMost maxTreeDepth document.rootNode ∧
      ∃ owner ∈ preorder 12 document.rootNode, ∃ lambda ∈ preorder 12 document.rootNode,
        kind owner = .classDeclaration ∧ inConstructorOf owner lambda = true ∧
          ¬ ∃ declaration, NearestAbove .constructorDeclaration declaration lambda ∧
            declares owner declaration = true := by
  intro document
  have low : HeightAtMost 12 document.rootNode :=
    heightAtMost_of_level_eq_nil (List.isEmpty_iff.mp (by decide +kernel))
  have height : HeightAtMost maxTreeDepth document.rootNode := low.mono (by decide)
  have nodes : ∃ owner ∈ preorder 12 document.rootNode, ∃ lambda ∈ preorder 12 document.rootNode,
      kind owner = .classDeclaration ∧ inConstructorOf owner lambda = true ∧
        (enclosing? lambda .constructorDeclaration).map (declares owner) = some false := by
    decide +kernel
  rcases nodes with ⟨owner, isNode, lambda, alsoNode, isClass, owned, notDeclared⟩
  rcases mem_preorder.mp alsoNode with ⟨depth, _, reached⟩
  refine ⟨height, owner, isNode, lambda, alsoNode, isClass, owned, ?_⟩
  rintro ⟨declaration, nearest, isDeclared⟩
  have found := (enclosing?_eq_some_iff_nearestAbove document.coherent height reached).mpr nearest
  rw [found, Option.map_some, isDeclared] at notDeclared
  cases notDeclared

end Document
end Java
end CommandWiring
