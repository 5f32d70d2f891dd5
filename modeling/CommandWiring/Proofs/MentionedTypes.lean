import CommandWiring.Proofs.AlikeDocuments
import CommandWiring.Proofs.Wrapping

/-!
# Mentioned types

A node mentions the type names of its own and those below it, except that nothing is looked for
below a scoped type. A type name of its own is had by a type and by a method reference with a named
receiver.
-/

namespace CommandWiring
namespace Java

def ownTypeNames (textOf : Span -> String) : Tree -> List String
  | .node _ .typeIdentifier span _ => [textOf span]
  | .node _ .scopedTypeIdentifier span _ => [simpleTypeName (textOf span)]
  | .node _ .methodReference _ parts => receiverName textOf parts
  | _ => []

theorem ownTypeNames_eq (textOf : Span -> String) (tree : Tree) :
    ownTypeNames textOf tree =
      match tree.construct? with
      | some .typeIdentifier => [textOf tree.span]
      | some .scopedTypeIdentifier => [simpleTypeName (textOf tree.span)]
      | some .methodReference => receiverName textOf tree.children
      | _ => [] := by
  cases tree with
  | token span => rfl
  | extra span parts => rfl
  | node slot construct span children => cases construct <;> rfl

theorem typeNames_of_not_isContent {textOf : Span -> String} {tree : Tree}
    (notContent : tree.isContent = false) : typeNames textOf tree = [] := by
  cases tree with
  | token span => rfl
  | extra span parts =>
      cases parts with
      | nil => rfl
      | cons first rest => cases notContent
  | node slot construct span children => cases notContent

theorem typeNamesIn_eq_flatMap (textOf : Span -> String) (trees : List Tree) :
    typeNamesIn textOf trees = (trees.filter Tree.isContent).flatMap (typeNames textOf) := by
  induction trees with
  | nil => rfl
  | cons first rest ih =>
      rw [typeNamesIn, ih]
      cases isContent : first.isContent with
      | true => rw [List.filter_cons_of_pos isContent, List.flatMap_cons]
      | false =>
          rw [typeNames_of_not_isContent isContent, List.filter_cons_of_neg (by simp [isContent])]
          rfl

theorem typeNames_eq (textOf : Span -> String) (tree : Tree) :
    typeNames textOf tree = ownTypeNames textOf tree ++
      if tree.construct? = some .scopedTypeIdentifier then []
      else tree.contents.flatMap (typeNames textOf) := by
  cases tree with
  | token span => rfl
  | extra span parts => exact typeNamesIn_eq_flatMap textOf parts
  | node slot construct span children =>
      rw [Tree.contents, Tree.parts, ← typeNamesIn_eq_flatMap]
      unfold typeNames ownTypeNames
      split <;> simp_all [Tree.construct?]

/-!
# Command types among them
-/

/-- Whether a name that was read counts as a command type. An empty name does not. -/
def counts (types : TypeSet) (name : String) : Bool :=
  name != "" && types.contains name

theorem mentionsAny_eq_any (types : TypeSet) {document : Document} (node : document.Node) :
    Search.mentionsAny types node =
      (typeNames document.textOf node.place.focus).any (counts types) := by
  have isMention (name : String) : name ∈ SyntaxNode.mentions node ↔
      name ∈ typeNames document.textOf node.place.focus ∧ name ≠ "" := by
    change name ∈ distinctNames (typeNames document.textOf node.place.focus) ↔ _
    rw [distinctNames, List.mem_eraseDups, List.mem_filter, bne_iff_ne]
  rw [Bool.eq_iff_iff, Search.mentionsAny, TypeSet.containsAny, List.any_eq_true, List.any_eq_true]
  constructor
  · intro given
    rcases given with ⟨name, mentioned, contained⟩
    rcases (isMention name).mp mentioned with ⟨named, notEmpty⟩
    exact ⟨name, named, by rw [counts, contained, bne_iff_ne.mpr notEmpty]; rfl⟩
  · intro given
    rcases given with ⟨name, named, isCounted⟩
    rw [counts, Bool.and_eq_true, bne_iff_ne] at isCounted
    exact ⟨name, (isMention name).mpr ⟨named, isCounted.1⟩, isCounted.2⟩

/-!
# Mentions and wrappers
-/

theorem typeNames_of_wrapper {textOf : Span -> String} {tree : Tree}
    (isWrapper : tree.construct? = some .parenthesizedExpression ∨
      tree.construct? = some .castExpression) :
    typeNames textOf tree = tree.contents.flatMap (typeNames textOf) := by
  have notScoped : tree.construct? ≠ some .scopedTypeIdentifier := by
    rcases isWrapper with is | is <;> rw [is] <;> decide
  have noneOwn : ownTypeNames textOf tree = [] := by
    rcases isWrapper with is | is <;> rw [ownTypeNames_eq, is]
  rw [typeNames_eq, noneOwn, if_neg notScoped, List.nil_append]

/-- Wrapping expressions does not change which of some types a tree mentions, if no node gains or
loses them and the types of new casts have none of them. -/
theorem any_typeNames_of_wrapped {keeps : Tree -> Tree -> Bool} {casts : Tree -> Bool}
    {textOf imageTextOf : Span -> String} {accepts : String -> Bool}
    (own : ∀ tree image, keeps tree image = true ->
      (ownTypeNames textOf tree).any accepts = (ownTypeNames imageTextOf image).any accepts)
    (others : ∀ type, casts type = true -> (typeNames imageTextOf type).any accepts = false)
    {tree image : Tree} (wrapped : Tree.Wrapped keeps casts tree image) :
    (typeNames textOf tree).any accepts = (typeNames imageTextOf image).any accepts := by
  induction wrapped with
  | @copy tree image same kept slots parts ih =>
      have pairs : List.Forall₂ (fun part partImage => (typeNames textOf part).any accepts =
          (typeNames imageTextOf partImage).any accepts) tree.contents image.contents :=
        (Tree.forall₂_contents slots ih).imp fun _ _ pair => pair.2
      rw [typeNames_eq, typeNames_eq, same, List.any_append, List.any_append, own _ _ kept]
      split
      · rfl
      · rw [List.any_flatMap, List.any_flatMap, any_eq_of_forall₂ (fun _ _ same => same) pairs]
  | @parenthesized tree image inner _ _ isParenthesized holds _ _ ih =>
      rw [typeNames_of_wrapper (Or.inl isParenthesized), holds, List.flatMap_singleton]
      exact ih
  | @cast tree image inner types _ _ isCast holds _ onlyTypes _ ih =>
      have noneInTypes : (types.flatMap (typeNames imageTextOf)).any accepts = false := by
        rw [List.any_flatMap, List.any_eq_false]
        intro type isType
        rw [others type (onlyTypes type isType).2]
        exact Bool.false_ne_true
      rw [typeNames_of_wrapper (Or.inr isCast), holds, List.flatMap_append, List.any_append,
        noneInTypes, Bool.false_or, List.flatMap_singleton]
      exact ih

end Java
end CommandWiring
