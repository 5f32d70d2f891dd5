import CommandWiring.Proofs.Wrapping
import CommandWiring.Proofs.WrittenNames

/-!
# Words that name types

A type is named by one word: a type identifier that does not qualify another one behind it, or the
last word of a name in front of a method reference. The words of a tree stand in document order. A
word that is missing from the text names nothing.
-/

namespace CommandWiring
namespace Java

/-!
# Words in a tree
-/

mutual

/-- Whether a tree is an identifier, or names with dots between them. -/
def isQualifiedName : Tree -> Bool
  | .node _ .identifier _ _ => true
  | .node _ .fieldAccess _ parts => areQualifiedNames parts
  | .node _ .scopedIdentifier _ parts => areQualifiedNames parts
  | _ => false

def areQualifiedNames : List Tree -> Bool
  | [] => true
  | first :: rest => (!first.isContent || isQualifiedName first) && areQualifiedNames rest

end

def lastWord (tree : Tree) : Tree :=
  tree.nodes.getLast?.getD tree

mutual

/-- The words in `tree` that name a type, in document order. If `qualifies` is set, the tree stands
in front of the dot of a scoped type, and names no type itself. -/
def typeWords (qualifies : Bool) : Tree -> List Tree
  | .token _ => []
  | .extra _ parts => partWords false parts
  | .node slot .typeIdentifier span parts =>
      if qualifies || span.stop ≤ span.start then [] else [.node slot .typeIdentifier span parts]
  | .node _ .scopedTypeIdentifier _ parts => segmentWords qualifies parts
  | .node _ .genericType _ parts => partWords qualifies parts
  | .node _ .methodReference _ parts => referenceWords parts
  | .node _ _ _ parts => partWords false parts

def partWords (qualifies : Bool) : List Tree -> List Tree
  | [] => []
  | first :: rest => typeWords qualifies first ++ partWords qualifies rest

/-- The words in the parts of a scoped type, where each segment qualifies those behind it. -/
def segmentWords (qualifies : Bool) : List Tree -> List Tree
  | [] => []
  | first :: rest =>
      typeWords (qualifies || rest.any Tree.isNode) first ++ segmentWords qualifies rest

/-- The words in the parts of a method reference. A receiver that is a name counts by its last word.
-/
def referenceWords : List Tree -> List Tree
  | [] => []
  | first :: rest =>
      if first.isNode then
        (if isQualifiedName first then [lastWord first] else typeWords false first) ++
          partWords false rest
      else
        typeWords false first ++ referenceWords rest

end

theorem typeWords_node (qualifies : Bool) (slot : Slot) (construct : Construct) (span : Span)
    (parts : List Tree) :
    typeWords qualifies (.node slot construct span parts) =
      match construct with
      | .typeIdentifier =>
          if qualifies || span.stop ≤ span.start then [] else [.node slot construct span parts]
      | .scopedTypeIdentifier => segmentWords qualifies parts
      | .genericType => partWords qualifies parts
      | .methodReference => referenceWords parts
      | _ => partWords false parts := by
  cases construct <;> rfl

/-!
# Plainly written names
-/

/-- Whether a tree ends in a word that is a name and stands right behind a dot, apart from white
space, and has no left angle bracket in its text. -/
def endsInWord (textOf : Span -> String) (construct : Construct) (tree : Tree) : Bool :=
  match tree.children.reverse with
  | word :: .token dot :: _ =>
      word.construct? == some construct && isWrittenName (textOf word.span) && textOf dot == "." &&
        !(textOf tree.span).toList.contains '<'
  | _ => false

/-- Whether a receiver, if it is taken for a name, is one and is written plainly. -/
def isPlainReceiver (textOf : Span -> String) (receiver : Tree) : Bool :=
  !isNameLike receiver ||
    (isQualifiedName receiver &&
      if receiver.construct? = some .identifier then isWrittenName (textOf receiver.span)
      else endsInWord textOf .identifier receiver)

mutual

/-- Whether each scoped type in a tree mentions no type but the one that it names and is written
plainly, and each method reference has a plain receiver with no type in front of it. -/
def isPlainlyWritten (textOf : Span -> String) : Tree -> Bool
  | .token _ => true
  | .extra _ parts => arePlainlyWritten textOf parts
  | .node slot .scopedTypeIdentifier span parts =>
      (partWords true parts).isEmpty &&
        endsInWord textOf .typeIdentifier (.node slot .scopedTypeIdentifier span parts)
  | .node _ .methodReference _ parts =>
      (parts.find? Tree.isNode).all (isPlainReceiver textOf) &&
        (partWords false (parts.takeWhile fun part => !part.isNode)).isEmpty &&
        arePlainlyWritten textOf parts
  | .node _ _ _ parts => arePlainlyWritten textOf parts

def arePlainlyWritten (textOf : Span -> String) : List Tree -> Bool
  | [] => true
  | first :: rest => isPlainlyWritten textOf first && arePlainlyWritten textOf rest

end

/-!
# Order
-/

theorem Between.append_of_inside {lower upper : Nat} {span : Span} {inside behind : List Span}
    (start : lower ≤ span.start) (first : Between span.start span.stop inside)
    (second : Between span.stop upper behind) : Between lower upper (inside ++ behind) :=
  between_append.mpr ⟨span.stop, first.lower start, second⟩

theorem between_lastWord {tree : Tree} (ordered : tree.Ordered) :
    Between tree.span.start tree.span.stop [(lastWord tree).span] := by
  rw [lastWord]
  cases isLast : tree.nodes.getLast? with
  | none => exact ⟨Nat.le_refl _, ordered.between.le, Nat.le_refl _⟩
  | some last =>
      have member : last ∈ tree.children :=
        (List.mem_filter.mp (List.mem_of_getLast? isLast)).1
      exact ordered.between.forward (List.mem_map_of_mem member)

/-- Trees between two offsets, each in order. -/
def Tree.InRow (lower upper : Nat) (trees : List Tree) : Prop :=
  Between lower upper (trees.map span) ∧ ∀ tree ∈ trees, tree.Ordered

theorem Tree.InRow.cons {lower upper : Nat} {first : Tree} {rest : List Tree}
    (inRow : InRow lower upper (first :: rest)) :
    lower ≤ first.span.start ∧ first.Ordered ∧ InRow first.span.stop upper rest := by
  rcases inRow with ⟨⟨start, _, behind⟩, ordered⟩
  exact ⟨start, ordered first List.mem_cons_self, behind,
    fun tree member => ordered tree (List.mem_cons_of_mem first member)⟩

mutual

theorem between_typeWords : ∀ (tree : Tree) (qualifies : Bool), tree.Ordered ->
    Between tree.span.start tree.span.stop ((typeWords qualifies tree).map Tree.span)
  | .token _, _, ordered => ordered.between
  | .extra span parts, _, ordered => by
      have inRow : Tree.InRow span.start span.stop parts :=
        ⟨ordered.here, fun part member => ordered.atPart member⟩
      exact between_partWords parts false _ _ inRow
  | .node slot construct span parts, qualifies, ordered => by
      have inRow : Tree.InRow span.start span.stop parts :=
        ⟨ordered.between, fun part member => ordered.child member⟩
      have forward : span.start ≤ span.stop := inRow.1.le
      rw [typeWords_node]
      split
      · split
        · exact forward
        · exact ⟨Nat.le_refl _, forward, Nat.le_refl _⟩
      · exact between_segmentWords parts qualifies _ _ inRow
      · exact between_partWords parts qualifies _ _ inRow
      · exact between_referenceWords parts _ _ inRow
      · exact between_partWords parts false _ _ inRow

theorem between_partWords : ∀ (trees : List Tree) (qualifies : Bool) (lower upper : Nat),
    Tree.InRow lower upper trees ->
    Between lower upper ((partWords qualifies trees).map Tree.span)
  | [], _, _, _, inRow => inRow.1
  | first :: rest, qualifies, _, upper, inRow => by
      rcases inRow.cons with ⟨start, ordered, behind⟩
      rw [partWords, List.map_append]
      exact .append_of_inside start (between_typeWords first qualifies ordered)
        (between_partWords rest qualifies _ upper behind)

theorem between_segmentWords : ∀ (trees : List Tree) (qualifies : Bool) (lower upper : Nat),
    Tree.InRow lower upper trees ->
    Between lower upper ((segmentWords qualifies trees).map Tree.span)
  | [], _, _, _, inRow => inRow.1
  | first :: rest, qualifies, _, upper, inRow => by
      rcases inRow.cons with ⟨start, ordered, behind⟩
      rw [segmentWords, List.map_append]
      exact .append_of_inside start (between_typeWords first _ ordered)
        (between_segmentWords rest qualifies _ upper behind)

theorem between_referenceWords : ∀ (trees : List Tree) (lower upper : Nat),
    Tree.InRow lower upper trees -> Between lower upper ((referenceWords trees).map Tree.span)
  | [], _, _, inRow => inRow.1
  | first :: rest, _, upper, inRow => by
      rcases inRow.cons with ⟨start, ordered, behind⟩
      rw [referenceWords]
      split
      · rw [List.map_append]
        refine .append_of_inside start ?_ (between_partWords rest false _ upper behind)
        split
        · exact between_lastWord ordered
        · exact between_typeWords first false ordered
      · rw [List.map_append]
        exact .append_of_inside start (between_typeWords first false ordered)
          (between_referenceWords rest _ upper behind)

end

end Java
end CommandWiring
