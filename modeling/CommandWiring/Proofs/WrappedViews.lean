import CommandWiring.Java.Reader
import CommandWiring.Proofs.MentionedTypes

/-!
# Views of wrapped trees

The view of a tree and that of the tree with wrapped expressions have the same nodes in the same
order, so binder sites and commands are found at the same ones. A command type must be spelled the
same where its name is read off the text.
-/

namespace CommandWiring
namespace Java

theorem Place.construct_of_variableReference {root : Tree} {place : Place root}
    (isVariable : place.kind = .variableReference) :
    place.focus.construct? = some .identifier := by
  unfold kind at isVariable
  split at isVariable
  all_goals first
    | assumption
    | (split at isVariable <;> (try split at isVariable) <;> cases isVariable)
    | cases isVariable

namespace Document

open SyntaxNode

variable {document image : Document} {keeps : Tree -> Tree -> Bool} {casts : Tree -> Bool}

/-!
# Twins in the two views
-/

/-- The two views show the two nodes alike. -/
def NodesMatch (keeps : Tree -> Tree -> Bool) (casts : Tree -> Bool) (node : document.Node)
    (twin : image.Node) : Prop :=
  Place.Matches keeps casts node.place twin.place

theorem forall₂_children (node : document.Node) (twin : image.Node)
    (matched : NodesMatch keeps casts node twin) :
    List.Forall₂ (NodesMatch keeps casts) (children node) (children twin) := by
  show List.Forall₂ _ (node.place.shown.map Node.mk) (twin.place.shown.map Node.mk)
  rw [List.forall₂_map_left_iff, List.forall₂_map_right_iff]
  exact matched.shown document.isUnit_root image.isUnit_root

section

variable (wrapped : Tree.Wrapped keeps casts document.root image.root)

include wrapped

theorem nodesMatch_rootNode : NodesMatch keeps casts document.rootNode image.rootNode :=
  Place.matches_top document.isUnit_root wrapped

theorem sameForm_of_wrapped : SameForm document.rootNode image.rootNode :=
  .of_related (nodesMatch_rootNode wrapped) forall₂_children

theorem nodesMatch_of_twins {node : document.Node} {twin : image.Node}
    (twins : Twins document.rootNode image.rootNode node twin) : NodesMatch keeps casts node twin :=
  twins.related (nodesMatch_rootNode wrapped) forall₂_children

theorem alike_of_wrapped
    (words : ∀ tree copy, keeps tree copy = true -> tree.construct? = some .identifier ->
      document.textOf tree.span = image.textOf copy.span)
    (names : ∀ (node : document.Node) (twin : image.Node), NodesMatch keeps casts node twin ->
      kind node ≠ .other -> name? node = name? twin) :
    Alike (Twins document.rootNode image.rootNode) where
  children twins := (sameForm_of_wrapped wrapped).children twins
  parent? twins := twins.parents document.coherent image.coherent
  kind twins := (nodesMatch_of_twins wrapped twins).kind
  role twins := (nodesMatch_of_twins wrapped twins).role
  name? twins := names _ _ (nodesMatch_of_twins wrapped twins)
  text twins isVariable := words _ _ (nodesMatch_of_twins wrapped twins).copied.kept
    (Place.construct_of_variableReference isVariable)

end

/-!
# What wrapping keeps
-/

/-- Whether the copy of a name or of another word is spelled the same. -/
def keepsWords (document image : Document) (tree copy : Tree) : Bool :=
  !(tree.slot == .name || tree.construct?.any Construct.isWord) ||
    document.textOf tree.span == image.textOf copy.span

/-- Whether a node by itself has the name of a command type exactly if its copy has. -/
def keepsTypes (document image : Document) (types : TypeSet) (tree copy : Tree) : Bool :=
  (ownTypeNames document.textOf tree).any (counts types) ==
    (ownTypeNames image.textOf copy).any (counts types)

/-- Whether no command type is mentioned. -/
def avoidsTypes (image : Document) (types : TypeSet) (tree : Tree) : Bool :=
  !(typeNames image.textOf tree).any (counts types)

theorem text_of_keepsWords {tree copy : Tree} (kept : keepsWords document image tree copy = true)
    (isWord : tree.slot = .name ∨ tree.construct?.any Construct.isWord = true) :
    document.textOf tree.span = image.textOf copy.span := by
  have named : (tree.slot == Slot.name || tree.construct?.any Construct.isWord) = true := by
    rw [Bool.or_eq_true, beq_iff_eq]
    exact isWord
  rw [keepsWords, named, Bool.not_true, Bool.false_or, beq_iff_eq] at kept
  exact kept

theorem name?_of_nodesMatch
    (words : ∀ tree copy, keeps tree copy = true -> keepsWords document image tree copy = true)
    {node : document.Node} {twin : image.Node} (matched : NodesMatch keeps casts node twin) :
    name? node = name? twin := by
  have names := matched.rel_name
  show (node.place.inSlot? .name).map _ = (twin.place.inSlot? .name).map _
  generalize node.place.inSlot? .name = name?, twin.place.inSlot? .name = twinName? at names ⊢
  cases names with
  | none => rfl
  | some given =>
      rcases given with ⟨isName, kept⟩
      exact congrArg some (text_of_keepsWords (words _ _ kept) (Or.inl isName))

theorem alike_of_keepsWords (wrapped : Tree.Wrapped keeps casts document.root image.root)
    (words : ∀ tree copy, keeps tree copy = true -> keepsWords document image tree copy = true) :
    Alike (Twins document.rootNode image.rootNode) := by
  refine alike_of_wrapped wrapped ?_ fun node twin matched _ => name?_of_nodesMatch words matched
  intro tree copy kept isIdentifier
  exact text_of_keepsWords (words tree copy kept) (Or.inr (by rw [isIdentifier]; rfl))

theorem mentionsAny_of_wrapped {types : TypeSet}
    (wrapped : Tree.Wrapped keeps (avoidsTypes image types) document.root image.root)
    (own : ∀ tree copy, keeps tree copy = true -> keepsTypes document image types tree copy = true)
    {node : document.Node} {twin : image.Node}
    (twins : Twins document.rootNode image.rootNode node twin) :
    Search.mentionsAny types node = Search.mentionsAny types twin := by
  rw [mentionsAny_eq_any, mentionsAny_eq_any]
  refine any_typeNames_of_wrapped (fun tree copy given => beq_iff_eq.mp (own tree copy given)) ?_
    (nodesMatch_of_twins wrapped twins).copied.wrapped
  intro type avoided
  rwa [avoidsTypes, Bool.not_eq_true'] at avoided

/-!
# Sites and commands
-/

/-- The nodes of the view of `image` are the twins of those of the view of `document`. -/
structure IsTwinView (document image : Document) (twin : document.Node -> image.Node) : Prop where
  root : twin document.rootNode = image.rootNode
  nodes : Set.BijOn twin {node | ∃ depth, Descends document.rootNode depth node}
    {node | ∃ depth, Descends image.rootNode depth node}
  children : ∀ depth node, Descends document.rootNode depth node ->
    SyntaxNode.children (twin node) = (SyntaxNode.children node).map twin
  parent? : ∀ depth node, Descends document.rootNode depth node ->
    SyntaxNode.parent? (twin node) = (SyntaxNode.parent? node).map twin
  kind : ∀ depth node, Descends document.rootNode depth node ->
    SyntaxNode.kind (twin node) = SyntaxNode.kind node
  role : ∀ depth node, Descends document.rootNode depth node ->
    SyntaxNode.role (twin node) = SyntaxNode.role node
  name? : ∀ depth node, Descends document.rootNode depth node ->
    SyntaxNode.name? (twin node) = SyntaxNode.name? node
  construct? : ∀ depth node, Descends document.rootNode depth node ->
    (twin node).place.focus.construct? = node.place.focus.construct?
  sites : ∀ accepts, (BinderSite.inDocument accepts image).value =
    (BinderSite.inDocument accepts document).value.map fun site =>
      ⟨twin site.invocation, twin site.binder⟩
  /-- Wrapping can change the name of a type in a scoped type and in the receiver of a method
  reference only. -/
  outcomes : ∀ types,
    Tree.Wrapped (fun tree copy => keepsWords document image tree copy &&
        keepsTypes document image types tree copy) (avoidsTypes image types)
      document.root image.root ->
    ∀ depth invocation, Descends document.rootNode depth invocation ->
      SyntaxNode.kind invocation = .invocation ->
      (Search.inInvocation types (twin invocation)).value =
        (Search.inInvocation types invocation).value.map twin

/-- Parentheses and casts put around expressions are not seen. The two views have the same nodes,
and binder sites are found at the same ones. A search has the same outcome if no new cast mentions a
command type and if the type names that nodes have by themselves are kept as far as they are command
types; wrapping can change such a name in a scoped type and in the receiver of a method reference
only. -/
theorem wrapping_is_invisible (document image : Document)
    (wrapped : Tree.Wrapped (keepsWords document image) (fun _ => true) document.root image.root) :
    ∃ twin, IsTwinView document image twin := by
  have coherent := document.coherent
  have sameForm := sameForm_of_wrapped wrapped
  have alike := alike_of_keepsWords wrapped fun _ _ kept => kept
  rcases sameForm.exists_map with ⟨twin, isTwin⟩
  have eq_twin : ∀ node other, Twins document.rootNode image.rootNode node other ->
      other = twin node := by
    intro node other twins
    rcases twins.reached with ⟨depth, reached, _⟩
    exact twins.unique coherent (isTwin node ⟨depth, reached⟩)
  have twins {depth : Nat} {node : document.Node}
      (reached : Descends document.rootNode depth node) :
      Twins document.rootNode image.rootNode node (twin node) := isTwin node ⟨depth, reached⟩
  exact ⟨twin, {
    root := (eq_twin _ _ .here).symm
    nodes := bijOn_twin coherent image.coherent sameForm isTwin
    children := fun _ _ reached => eq_map_of_forall₂ eq_twin (alike.children (twins reached))
    parent? := fun _ _ reached => eq_map_of_rel eq_twin (alike.parent? (twins reached))
    kind := fun _ _ reached => (alike.kind (twins reached)).symm
    role := fun _ _ reached => (alike.role (twins reached)).symm
    name? := fun _ _ reached => (name?_of_nodesMatch (fun _ _ kept => kept)
      (nodesMatch_of_twins wrapped (twins reached))).symm
    construct? := fun _ _ reached =>
      (nodesMatch_of_twins wrapped (twins reached)).copied.construct.symm
    sites := by
      intro accepts
      refine eq_map_of_forall₂ ?_ (alike.sites accepts)
      intro site other rel
      rw [← eq_twin _ _ rel.invocation, ← eq_twin _ _ rel.binder]
    outcomes := by
      intro types kept depth invocation reached isCall
      have own : ∀ tree copy, (keepsWords document image tree copy &&
          keepsTypes document image types tree copy) = true ->
          keepsTypes document image types tree copy = true := by
        intro tree copy both
        exact (Bool.and_eq_true_iff.mp both).2
      have outcomes := alike.inInvocation (fun _ _ twins => mentionsAny_of_wrapped kept own twins)
        (twins reached) isCall
      exact outcomes.eq_map eq_twin }⟩

theorem wrapping_is_invisible_cast_supplier :
    let document := parse "class A{A(){b(()->new B());}}"
    let image := parse "class A{A(){b((C<D>)/* now */(()->((E)new B())));}}"
    let types := TypeSet.ofList ["B"]
    Tree.Wrapped (keepsWords document image) (fun _ => true) document.root image.root ∧
      Tree.Wrapped (fun tree copy => keepsWords document image tree copy &&
        keepsTypes document image types tree copy) (avoidsTypes image types)
        document.root image.root ∧
      ((chainStarts document.rootNode).map fun call =>
        (Search.inInvocation types call).value.matchKind?) = [some .constructorCall] ∧
      ∃ twin : document.Node -> image.Node,
        ∀ depth invocation, Descends document.rootNode depth invocation ->
          kind invocation = .invocation ->
          (Search.inInvocation types (twin invocation)).value =
            (Search.inInvocation types invocation).value.map twin := by
  intro document image types
  have tested : Tree.isWrapped (fun tree copy => keepsWords document image tree copy &&
        keepsTypes document image types tree copy) (avoidsTypes image types) 20 document.root
        image.root = true ∧
      ((chainStarts document.rootNode).map fun call =>
        (Search.inInvocation types call).value.matchKind?) = [some .constructorCall] := by
    decide +kernel
  have kept := Tree.wrapped_of_isWrapped tested.1
  have wrapped :
      Tree.Wrapped (keepsWords document image) (fun _ => true) document.root image.root :=
    kept.mono (fun _ _ both => (Bool.and_eq_true_iff.mp both).1) fun _ _ => rfl
  refine ⟨wrapped, kept, tested.2, ?_⟩
  rcases wrapping_is_invisible document image wrapped with ⟨twin, isTwinView⟩
  exact ⟨twin, isTwinView.outcomes types kept⟩

/-- Wrapping is seen inside a scoped type, although the cast mentions no command type and no method
reference is there: the name of the type is read off its text, up to the first angle bracket. -/
theorem wrapping_shows_in_scoped_type :
    let document := parse "class A{A(){b(()->new p.@F(x)Q.B());}}"
    let image := parse "class A{A(){b(()->new p.@F((K<V>)x)Q.B());}}"
    let types := TypeSet.ofList ["B"]
    Tree.Wrapped (fun tree copy => keepsWords document image tree copy &&
        tree.construct? != some .methodReference) (avoidsTypes image types)
        document.root image.root ∧
      ∃ call twin, Twins document.rootNode image.rootNode call twin ∧
        (Search.inInvocation types call).value.matchKind? = some .constructorCall ∧
        (Search.inInvocation types twin).value = .missed .noCommandConstructor := by
  intro document image types
  have tested : Tree.isWrapped (fun tree copy => keepsWords document image tree copy &&
        tree.construct? != some .methodReference) (avoidsTypes image types) 20 document.root
        image.root = true ∧
      ((chainStarts document.rootNode).map fun call =>
        (Search.inInvocation types call).value.matchKind?) = [some .constructorCall] ∧
      ((chainStarts image.rootNode).map fun call =>
        (Search.inInvocation types call).value) = [.missed .noCommandConstructor] := by
    decide +kernel
  rcases tested with ⟨tested, found, missed⟩
  have wrapped := Tree.wrapped_of_isWrapped tested
  have starts := (alike_of_keepsWords wrapped fun _ _ both =>
    (Bool.and_eq_true_iff.mp both).1).chainStarts
    (Twins.biUnique document.coherent image.coherent) .here
  rcases List.map_eq_singleton_iff.mp found with ⟨call, isCall, isFound⟩
  rcases List.map_eq_singleton_iff.mp missed with ⟨twin, isTwin, isMissed⟩
  rw [isCall, isTwin] at starts
  cases starts with
  | cons twins _ => exact ⟨wrapped, call, twin, twins, isFound, isMissed⟩

end Document
end Java
end CommandWiring
