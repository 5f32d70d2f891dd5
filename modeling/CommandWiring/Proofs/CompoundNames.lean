import CommandWiring.Java.Declarations
import CommandWiring.Proofs.Layouts
import CommandWiring.Proofs.MentionedTypes

/-!
# Names of several lexemes

A type can be written with several lexemes, as a qualified name or with type arguments, and its
simple name is then read off the text of all of them. These are the only names that a layout has a
part in.
-/

namespace CommandWiring
namespace Java

theorem forall₂_of_flatMap_eq {α β γ : Type} {related : α -> β -> Prop} {f : α -> List γ}
    {g : β -> List γ} {elements : List α} {twins : List β}
    (rel : List.Forall₂ related elements twins)
    (lengths : ∀ element twin, related element twin -> (f element).length = (g twin).length)
    (same : elements.flatMap f = twins.flatMap g) :
    List.Forall₂ (fun element twin => f element = g twin) elements twins := by
  induction rel with
  | nil => exact .nil
  | cons head _ ih =>
      rw [List.flatMap_cons, List.flatMap_cons] at same
      rcases List.append_inj same (lengths _ _ head) with ⟨first, rest⟩
      exact .cons first (ih rest)

/-!
# Mentioned types
-/

/-- The type names that a node has by itself and that can be written with several lexemes. -/
def ownCompoundNames (textOf : Span -> String) (tree : Tree) : List String :=
  if tree.construct? = some .typeIdentifier then [] else ownTypeNames textOf tree

mutual

/-- The names of the scoped types and of the receivers of method references in `tree`, in document
order, as they are read off the text. -/
def compoundNames (textOf : Span -> String) : Tree -> List String
  | .token _ => []
  | .extra _ parts => compoundNamesIn textOf parts
  | .node slot construct span parts =>
      ownCompoundNames textOf (.node slot construct span parts) ++ compoundNamesIn textOf parts

def compoundNamesIn (textOf : Span -> String) : List Tree -> List String
  | [] => []
  | first :: rest => compoundNames textOf first ++ compoundNamesIn textOf rest

end

theorem compoundNames_of_not_isContent {textOf : Span -> String} {tree : Tree}
    (notContent : tree.isContent = false) : compoundNames textOf tree = [] := by
  cases tree with
  | token span => rfl
  | extra span parts =>
      cases parts with
      | nil => rfl
      | cons first rest => cases notContent
  | node slot construct span children => cases notContent

theorem compoundNamesIn_eq_flatMap (textOf : Span -> String) (trees : List Tree) :
    compoundNamesIn textOf trees =
      (trees.filter Tree.isContent).flatMap (compoundNames textOf) := by
  induction trees with
  | nil => rfl
  | cons first rest ih =>
      rw [compoundNamesIn, ih]
      cases isContent : first.isContent with
      | true => rw [List.filter_cons_of_pos isContent, List.flatMap_cons]
      | false =>
          rw [compoundNames_of_not_isContent isContent,
            List.filter_cons_of_neg (by simp [isContent])]
          rfl

theorem compoundNames_eq (textOf : Span -> String) (tree : Tree) :
    compoundNames textOf tree =
      ownCompoundNames textOf tree ++ tree.contents.flatMap (compoundNames textOf) := by
  cases tree with
  | token span => rfl
  | extra span parts => exact compoundNamesIn_eq_flatMap textOf parts
  | node slot construct span children =>
      rw [compoundNames, compoundNamesIn_eq_flatMap]
      rfl

theorem receiverName_eq (textOf : Span -> String) (parts : List Tree) :
    receiverName textOf parts =
      match (parts.filter Tree.isNode).head? with
      | some receiver => if isNameLike receiver then [simpleTypeName (textOf receiver.span)] else []
      | none => [] := by
  rw [List.head?_filter]
  rfl

namespace Tree
namespace Relaid

variable {textOf otherTextOf : Span -> String} {keeps : Tree -> Tree -> Bool} {tree image : Tree}

theorem length_receiverName (relaid : Relaid keeps tree image) :
    (receiverName textOf tree.children).length =
      (receiverName otherTextOf image.children).length := by
  have receivers := rel_head? relaid.forall₂_nodes
  rw [receiverName_eq, receiverName_eq]
  change Option.Rel _ (tree.children.filter Tree.isNode).head?
    (image.children.filter Tree.isNode).head? at receivers
  generalize (tree.children.filter Tree.isNode).head? = receiver?,
    (image.children.filter Tree.isNode).head? = image? at receivers ⊢
  cases receivers with
  | none => rfl
  | @some receiver image relaid =>
      have sameNameLike : isNameLike receiver = isNameLike image := by
        rw [isNameLike, isNameLike, relaid.construct]
      dsimp only
      rw [sameNameLike]
      split
      · rw [List.length_singleton, List.length_singleton]
      · rfl

theorem length_ownCompoundNames (relaid : Relaid keeps tree image) :
    (ownCompoundNames textOf tree).length = (ownCompoundNames otherTextOf image).length := by
  rw [ownCompoundNames, ownCompoundNames, ownTypeNames_eq, ownTypeNames_eq, ← relaid.construct]
  split
  · rfl
  · split
    · rw [List.length_singleton, List.length_singleton]
    · rw [List.length_singleton, List.length_singleton]
    · exact relaid.length_receiverName
    · rfl

theorem length_compoundNames (relaid : Relaid keeps tree image) :
    (compoundNames textOf tree).length = (compoundNames otherTextOf image).length := by
  induction relaid with
  | @copy tree image construct kept slots parts ih =>
      have relaid := Relaid.copy construct kept slots parts
      have lengths := (Tree.forall₂_contents slots ih).imp fun _ _ pair => pair.2
      rw [compoundNames_eq, compoundNames_eq, List.length_append, List.length_append,
        relaid.length_ownCompoundNames, List.length_flatMap, List.length_flatMap]
      congr 2
      rw [← List.forall₂_eq_eq_eq, List.forall₂_map_left_iff, List.forall₂_map_right_iff]
      exact lengths

theorem accepting {accepts : String -> Bool} (relaid : Relaid keeps tree image)
    (words : ∀ tree copy, keeps tree copy = true -> tree.construct? = some .typeIdentifier ->
      textOf tree.span = otherTextOf copy.span)
    (same : (compoundNames textOf tree).map accepts =
      (compoundNames otherTextOf image).map accepts) :
    Relaid (fun tree copy => keeps tree copy &&
      (ownTypeNames textOf tree).any accepts == (ownTypeNames otherTextOf copy).any accepts)
      tree image := by
  induction relaid with
  | @copy tree image construct kept slots parts ih =>
      have relaid := Relaid.copy construct kept slots parts
      rw [compoundNames_eq, compoundNames_eq, List.map_append, List.map_append, List.map_flatMap,
        List.map_flatMap] at same
      have ownLengths : ((ownCompoundNames textOf tree).map accepts).length =
          ((ownCompoundNames otherTextOf image).map accepts).length := by
        rw [List.length_map, List.length_map, relaid.length_ownCompoundNames]
      rcases List.append_inj same ownLengths with ⟨own, below⟩
      have pairs := forall₂_of_flatMap_eq relaid.forall₂_contents (fun _ _ pair => by
        rw [List.length_map, List.length_map, pair.length_compoundNames]) below
      refine .copy construct ?_ slots ?_
      · rw [Bool.and_eq_true, beq_iff_eq]
        refine ⟨kept, ?_⟩
        cases isType : tree.construct? == some .typeIdentifier with
        | true =>
            have isType := beq_iff_eq.mp isType
            rw [ownTypeNames_eq, ownTypeNames_eq, ← construct, isType]
            exact congrArg (fun name => [name].any accepts) (words _ _ kept isType)
        | false =>
            have notType := beq_eq_false_iff_ne.mp isType
            rw [ownCompoundNames, if_neg notType, ownCompoundNames,
              if_neg (construct ▸ notType)] at own
            have anys := congrArg (fun accepted => accepted.any id) own
            rwa [List.any_map, List.any_map] at anys
      · intro index part partImage isPart isPartImage
        apply ih index part partImage isPart isPartImage
        rcases List.getElem?_eq_some_iff.mp isPart with ⟨bound, rfl⟩
        rcases List.getElem?_eq_some_iff.mp isPartImage with ⟨imageBound, rfl⟩
        exact pairs.get bound imageBound

end Relaid
end Tree

/-!
# Supertypes
-/

namespace Declarations

def listedTypes (construct : Construct) (declaration : Tree) : List Tree :=
  match (childOf? construct declaration).bind (childOf? .typeList) with
  | some list => list.children.filter isNamedType
  | none => []

def extendedTypes (declaration : Tree) : List Tree :=
  match (childOf? .superclass declaration).bind fun clause => clause.children.find? isNamedType with
  | some type => [type]
  | none => []

def writtenSupertypes (declaration : Tree) : List Tree :=
  if declaration.construct? = some .interfaceDeclaration then
    listedTypes .extendsInterfaces declaration
  else
    extendedTypes declaration ++ listedTypes .superInterfaces declaration

theorem supertypes_eq (document : Document) (declaration : Tree) :
    supertypes document declaration = simpleNames document (writtenSupertypes declaration) := by
  have isListed (construct : Construct) : listed document construct declaration =
      simpleNames document (listedTypes construct declaration) := by
    unfold listed listedTypes
    cases (childOf? construct declaration).bind (childOf? .typeList) <;> rfl
  have isExtended : extended document declaration =
      simpleNames document (extendedTypes declaration) := by
    unfold extended extendedTypes
    generalize (childOf? .superclass declaration).bind _ = type?
    cases type? <;> rfl
  unfold supertypes writtenSupertypes
  split
  · exact isListed _
  · rw [isExtended, isListed, simpleNames, simpleNames, simpleNames, List.map_append]

/-- Whether a written type is more than a name. -/
def isCompound (type : Tree) : Bool :=
  type.construct? != some .typeIdentifier

/-- The simple names of the supertypes that are written with more than a name. -/
def compoundSupertypes (document : Document) (declaration : Tree) : List String :=
  simpleNames document ((writtenSupertypes declaration).filter isCompound)

end Declarations

theorem isNode_of_isNamedType (type : Tree) (named : Declarations.isNamedType type = true) :
    type.isNode = true := by
  cases type with
  | token span => cases named
  | extra span parts => cases named
  | node slot construct span children => rfl

namespace Tree
namespace Relaid

variable {keeps : Tree -> Tree -> Bool} {tree image : Tree}

theorem find?_children (relaid : Relaid keeps tree image) {accepts : Tree -> Bool}
    (onlyNodes : ∀ child, accepts child = true -> child.isNode = true)
    (agree : ∀ part copy, Relaid keeps part copy -> accepts part = accepts copy) :
    Option.Rel (Relaid keeps) (tree.children.find? accepts) (image.children.find? accepts) := by
  rw [find?_children_eq tree onlyNodes, find?_children_eq image onlyNodes]
  exact rel_find? agree relaid.forall₂_nodes

theorem filter_children (relaid : Relaid keeps tree image) {accepts : Tree -> Bool}
    (onlyNodes : ∀ child, accepts child = true -> child.isNode = true)
    (agree : ∀ part copy, Relaid keeps part copy -> accepts part = accepts copy) :
    List.Forall₂ (Relaid keeps) (tree.children.filter accepts) (image.children.filter accepts) := by
  rw [filter_children_eq tree onlyNodes, filter_children_eq image onlyNodes]
  exact rel_filter agree relaid.forall₂_nodes

theorem childOf? (relaid : Relaid keeps tree image) (construct : Construct) :
    Option.Rel (Relaid keeps) (Declarations.childOf? construct tree)
      (Declarations.childOf? construct image) := by
  refine relaid.find?_children ?_ ?_
  · intro child isConstruct
    rw [Tree.isNode, beq_iff_eq.mp isConstruct]
    rfl
  · intro part copy pair
    rw [pair.construct]

theorem isNamedType (relaid : Relaid keeps tree image) :
    Declarations.isNamedType tree = Declarations.isNamedType image := by
  rw [Declarations.isNamedType, Declarations.isNamedType, relaid.construct]

theorem forall₂_listedTypes (relaid : Relaid keeps tree image) (construct : Construct) :
    List.Forall₂ (Relaid keeps) (Declarations.listedTypes construct tree)
      (Declarations.listedTypes construct image) := by
  have lists : Option.Rel (Relaid keeps)
      ((Declarations.childOf? construct tree).bind (Declarations.childOf? .typeList))
      ((Declarations.childOf? construct image).bind (Declarations.childOf? .typeList)) := by
    have clauses := relaid.childOf? construct
    generalize Declarations.childOf? construct tree = clause?,
      Declarations.childOf? construct image = image? at clauses
    cases clauses with
    | none => exact .none
    | some clause => exact clause.childOf? .typeList
  unfold Declarations.listedTypes
  generalize (Declarations.childOf? construct tree).bind _ = list?,
    (Declarations.childOf? construct image).bind _ = listImage? at lists ⊢
  cases lists with
  | none => exact .nil
  | some list => exact list.filter_children isNode_of_isNamedType fun _ _ pair => pair.isNamedType

theorem forall₂_extendedTypes (relaid : Relaid keeps tree image) :
    List.Forall₂ (Relaid keeps) (Declarations.extendedTypes tree)
      (Declarations.extendedTypes image) := by
  have clauses := relaid.childOf? .superclass
  unfold Declarations.extendedTypes
  generalize Declarations.childOf? .superclass tree = clause?,
    Declarations.childOf? .superclass image = clauseImage? at clauses ⊢
  cases clauses with
  | none => exact .nil
  | @some clause clauseImage pair =>
      have types := pair.find?_children isNode_of_isNamedType fun _ _ pair => pair.isNamedType
      rw [Option.bind_some, Option.bind_some]
      generalize clause.children.find? Declarations.isNamedType = type?,
        clauseImage.children.find? Declarations.isNamedType = typeImage? at types ⊢
      cases types with
      | none => exact .nil
      | some type => exact .cons type .nil

theorem forall₂_writtenSupertypes (relaid : Relaid keeps tree image) :
    List.Forall₂ (Relaid keeps) (Declarations.writtenSupertypes tree)
      (Declarations.writtenSupertypes image) := by
  unfold Declarations.writtenSupertypes
  rw [← relaid.construct]
  split
  · exact relaid.forall₂_listedTypes _
  · exact List.rel_append relaid.forall₂_extendedTypes (relaid.forall₂_listedTypes _)

theorem simpleNames_eq {document copy : Document}
    (words : ∀ tree image, keeps tree image = true -> tree.construct? = some .typeIdentifier ->
      document.textOf tree.span = copy.textOf image.span)
    {types copies : List Tree} (rel : List.Forall₂ (Relaid keeps) types copies)
    (same : Declarations.simpleNames document (types.filter Declarations.isCompound) =
      Declarations.simpleNames copy (copies.filter Declarations.isCompound)) :
    Declarations.simpleNames document types = Declarations.simpleNames copy copies := by
  unfold Declarations.simpleNames at same ⊢
  induction rel with
  | nil => rw [List.map_nil, List.map_nil]
  | @cons type typeCopy rest copies pair _ ih =>
      have sameCompound : Declarations.isCompound type = Declarations.isCompound typeCopy := by
        rw [Declarations.isCompound, Declarations.isCompound, pair.construct]
      rw [List.map_cons, List.map_cons, List.cons.injEq]
      cases compound : Declarations.isCompound type with
      | true =>
          rw [List.filter_cons_of_pos compound, List.filter_cons_of_pos (sameCompound ▸ compound),
            List.map_cons, List.map_cons, List.cons.injEq] at same
          exact ⟨same.1, ih same.2⟩
      | false =>
          have isWord : type.construct? = some .typeIdentifier := by
            rwa [Declarations.isCompound, bne_eq_false_iff_eq] at compound
          rw [List.filter_cons_of_neg (by rw [compound]; exact Bool.false_ne_true),
            List.filter_cons_of_neg (by rw [← sameCompound, compound]; exact Bool.false_ne_true)]
            at same
          exact ⟨congrArg simpleTypeName (words _ _ pair.kept isWord), ih same⟩

theorem supertypes_eq {document copy : Document} (relaid : Relaid keeps tree image)
    (words : ∀ tree image, keeps tree image = true -> tree.construct? = some .typeIdentifier ->
      document.textOf tree.span = copy.textOf image.span)
    (same : Declarations.compoundSupertypes document tree =
      Declarations.compoundSupertypes copy image) :
    Declarations.supertypes document tree = Declarations.supertypes copy image := by
  rw [Declarations.supertypes_eq, Declarations.supertypes_eq]
  exact simpleNames_eq words relaid.forall₂_writtenSupertypes same

end Relaid
end Tree
end Java
end CommandWiring
