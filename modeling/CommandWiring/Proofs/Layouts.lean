import CommandWiring.Java.Reader
import CommandWiring.Proofs.Wrapping

/-!
# Two layouts of the same lexemes

In two layouts of a text only the tokens and comments of its tree lie elsewhere. A word is a single
lexeme, so it is spelled the same in both of them. What consists of several lexemes need not be: a
comment can stand inside it.
-/

namespace CommandWiring
namespace Java

/-!
# Trees with the same contents
-/

namespace Tree

/-- `image` has the same nodes as `tree`, and the same parts where text fits nowhere. `keeps` says
what each of them has in common with its counterpart. Tokens and comments play no part. -/
inductive Relaid (keeps : Tree -> Tree -> Bool) : Tree -> Tree -> Prop where
  | copy {tree image : Tree} :
      tree.construct? = image.construct? -> keeps tree image = true ->
      tree.contents.map slot = image.contents.map slot ->
      (∀ (index : Nat) (part partImage : Tree), tree.contents[index]? = some part ->
        image.contents[index]? = some partImage -> Relaid keeps part partImage) ->
      Relaid keeps tree image

namespace Relaid

variable {keeps : Tree -> Tree -> Bool} {tree image : Tree}

theorem of_forall₂ (construct : tree.construct? = image.construct?)
    (kept : keeps tree image = true)
    (parts : List.Forall₂ (fun part partImage => part.slot = partImage.slot ∧
      Relaid keeps part partImage) tree.contents image.contents) :
    Relaid keeps tree image := by
  refine .copy construct kept ?_ ?_
  · rw [← List.forall₂_eq_eq_eq, List.forall₂_map_left_iff, List.forall₂_map_right_iff]
    exact parts.imp fun _ _ pair => pair.1
  · intro index part partImage isPart isPartImage
    rcases List.getElem?_eq_some_iff.mp isPart with ⟨bound, rfl⟩
    rcases List.getElem?_eq_some_iff.mp isPartImage with ⟨imageBound, rfl⟩
    exact (parts.get bound imageBound).2

theorem construct (relaid : Relaid keeps tree image) : tree.construct? = image.construct? := by
  cases relaid with
  | copy construct => exact construct

theorem isNode (relaid : Relaid keeps tree image) : tree.isNode = image.isNode := by
  rw [Tree.isNode, Tree.isNode, relaid.construct]

theorem kept (relaid : Relaid keeps tree image) : keeps tree image = true := by
  cases relaid with
  | copy _ kept => exact kept

theorem forall₂_contents (relaid : Relaid keeps tree image) :
    List.Forall₂ (Relaid keeps) tree.contents image.contents := by
  cases relaid with
  | copy _ _ slots parts => exact (Tree.forall₂_contents slots parts).imp fun _ _ pair => pair.2

theorem forall₂_nodes (relaid : Relaid keeps tree image) :
    List.Forall₂ (Relaid keeps) tree.nodes image.nodes := by
  cases isNode : tree.isNode with
  | true =>
      exact forall₂_nodes_of_contents isNode relaid.construct (fun _ _ pair => pair.isNode)
        relaid.forall₂_contents
  | false =>
      rw [nodes_of_not_isNode isNode, nodes_of_not_isNode (relaid.isNode ▸ isNode)]
      exact .nil

theorem wrapped (casts : Tree -> Bool) (relaid : Relaid keeps tree image) :
    Wrapped keeps casts tree image := by
  induction relaid with
  | copy construct kept slots _ ih => exact .copy construct kept slots ih

theorem itself [∀ tree image, Decidable (Relaid keeps tree image)]
    (relaid : Relaid keeps tree image) :
    Relaid (fun tree image => decide (Relaid keeps tree image)) tree image := by
  induction relaid with
  | copy construct kept slots parts ih =>
      exact .copy construct (decide_eq_true (.copy construct kept slots parts)) slots ih

end Relaid

end Tree

/-- Whether the copy of a word is spelled the same. -/
def keepsWord (textOf otherTextOf : Span -> String) (tree copy : Tree) : Bool :=
  !tree.construct?.any Construct.isWord || textOf tree.span == otherTextOf copy.span

/-!
# Laying one skeleton over two texts

The reader has no part in the layout.
-/

/-- Two lists of tokens that are spelled the same one by one. -/
def SpelledAlike (textOf otherTextOf : Span -> String) (tokens others : List Token) : Prop :=
  List.Forall₂ (fun token other => textOf token.span = otherTextOf other.span) tokens others

theorem isContent_lay (skeleton : Skeleton) (stop : Nat) (tokens : List Token) :
    (lay stop tokens skeleton).tree.isContent = skeleton.seat?.isSome := by
  cases skeleton with
  | leaf => cases tokens <;> rfl
  | gap => rfl
  | node slot construct children => rfl

theorem slot_lay (skeleton : Skeleton) (stop : Nat) (tokens : List Token) :
    (lay stop tokens skeleton).tree.slot = (skeleton.seat?.map Seat.slot).getD .plain := by
  cases skeleton with
  | leaf => cases tokens <;> rfl
  | gap => rfl
  | node slot construct children => rfl

theorem children_of_word {construct : Construct} {children : List Skeleton}
    (spells : Shape.spells construct children = true) (isWord : construct.isWord = true) :
    children = [.leaf] := by
  unfold Shape.spells at spells
  split at spells
  · rfl
  · rw [isWord] at spells
    cases spells

theorem filter_isContent_comments (comments : List Span) (trees : List Tree) :
    (comments.map Tree.comment ++ trees).filter Tree.isContent = trees.filter Tree.isContent := by
  rw [List.filter_append, List.filter_eq_nil_iff.mpr, List.nil_append]
  intro tree member
  rcases List.mem_map.mp member with ⟨span, _, rfl⟩
  exact Bool.false_ne_true

section

variable {textOf otherTextOf : Span -> String}

mutual

theorem relaid_lay : ∀ (skeleton : Skeleton) (stop otherStop : Nat) (tokens others : List Token),
    SpelledAlike textOf otherTextOf tokens others -> skeleton.leafCount ≤ tokens.length ->
    skeleton.isShaped = true ->
    Tree.Relaid (keepsWord textOf otherTextOf) (lay stop tokens skeleton).tree
      (lay otherStop others skeleton).tree
  | .leaf, _, _, [], [], _, _, _ => .of_forall₂ rfl rfl .nil
  | .leaf, _, _, _ :: _, _ :: _, _, _, _ => .of_forall₂ rfl rfl .nil
  | .gap, _, _, _, _, _, _, _ => .of_forall₂ rfl rfl .nil
  | .node slot construct children, stop, otherStop, tokens, others, same, enough, isShaped => by
      simp only [Skeleton.isShaped, Bool.and_eq_true] at isShaped
      rcases isShaped with ⟨⟨_, spells⟩, areShaped⟩
      rw [lay, lay]
      refine .of_forall₂ rfl ?_
        (relaid_layAll children stop otherStop tokens others same enough areShaped)
      -- only words are kept, and a word has the token that its one leaf was laid over
      rw [keepsWord]
      cases isWord : construct.isWord with
      | false => simp [Tree.construct?, isWord]
      | true =>
          rcases children_of_word spells isWord with rfl
          cases same with
          | nil => cases enough
          | @cons token other rest otherRest head _ =>
              have kept : textOf token.span = otherTextOf other.span := head
              simpa [Tree.span, lay, layAll, hull] using Or.inr kept

theorem relaid_layAll : ∀ (skeletons : List Skeleton) (stop otherStop : Nat)
    (tokens others : List Token),
    SpelledAlike textOf otherTextOf tokens others ->
    Skeleton.leafCounts skeletons ≤ tokens.length -> Skeleton.areShaped skeletons = true ->
    List.Forall₂ (fun tree copy => tree.slot = copy.slot ∧
        Tree.Relaid (keepsWord textOf otherTextOf) tree copy)
      ((layAll stop tokens skeletons).trees.filter Tree.isContent)
      ((layAll otherStop others skeletons).trees.filter Tree.isContent)
  | [], _, _, _, _, _, _, _ => .nil
  | first :: more, stop, otherStop, tokens, others, same, enough, areShaped => by
      simp only [Skeleton.areShaped, Bool.and_eq_true] at areShaped
      simp only [Skeleton.leafCounts] at enough
      have tail : List.Forall₂ (fun tree copy => tree.slot = copy.slot ∧
            Tree.Relaid (keepsWord textOf otherTextOf) tree copy)
          ((layAll (lay stop tokens first).stop (lay stop tokens first).rest more).trees.filter
            Tree.isContent)
          ((layAll (lay otherStop others first).stop
            (lay otherStop others first).rest more).trees.filter Tree.isContent) := by
        apply relaid_layAll more _ _ _ _ _ _ areShaped.2
        · rw [rest_lay, rest_lay]
          exact List.forall₂_drop _ same
        · rw [rest_lay, List.length_drop]
          omega
      rw [layAll, layAll, List.filter_cons, List.filter_cons, filter_isContent_comments,
        filter_isContent_comments, isContent_lay, isContent_lay]
      split
      · have enoughHere : first.leafCount ≤ tokens.length := by omega
        have sameSlot : (lay stop tokens first).tree.slot =
            (lay otherStop others first).tree.slot := by
          rw [slot_lay, slot_lay]
        exact .cons ⟨sameSlot,
          relaid_lay first stop otherStop tokens others same enoughHere areShaped.1⟩ tail
      · exact tail

end

theorem relaid_layText {first second : String} {construct : Construct} {skeletons : List Skeleton}
    (same : SpelledAlike textOf otherTextOf (tokenize first).tokens (tokenize second).tokens)
    (complete : Skeleton.leafCounts skeletons = (tokenize first).tokens.length)
    (isUnit : construct.isUnit = true)
    (isShaped : (Skeleton.node .plain construct skeletons).isShaped = true) :
    Tree.Relaid (keepsWord textOf otherTextOf) (layText first construct skeletons)
      (layText second construct skeletons) := by
  have areShaped : Skeleton.areShaped skeletons = true := by
    simp only [Skeleton.isShaped, Bool.and_eq_true] at isShaped
    exact isShaped.2
  have notWord : construct.isWord = false := by
    cases construct <;> first | rfl | cases isUnit
  have contents (text : String) : (layText text construct skeletons).contents =
      (layAll 0 (tokenize text).tokens skeletons).trees.filter Tree.isContent := by
    have trailing := filter_isContent_comments (tokenize text).trailing []
    rw [List.append_nil, List.filter_nil] at trailing
    show (layText text construct skeletons).children.filter Tree.isContent = _
    rw [children_layText, List.append_assoc, filter_isContent_comments, List.filter_append,
      trailing, List.append_nil]
  refine .of_forall₂ rfl ?_ ?_
  · simp [keepsWord, layText, layUnit, Tree.construct?, notWord]
  · rw [contents, contents]
    exact relaid_layAll skeletons 0 0 _ _ same (Nat.le_of_eq complete) areShaped

end

/-!
# Documents with the same lexemes
-/

/-- Whether two texts differ in the comments and the white space between their lexemes only. -/
def SameLexemes (first second : String) : Prop :=
  (tokenize first).lexemes = (tokenize second).lexemes

instance (first second : String) : Decidable (SameLexemes first second) :=
  inferInstanceAs (Decidable ((tokenize first).lexemes = (tokenize second).lexemes))

namespace Document

theorem textOf_parse {text : String} {token : Token} (member : token ∈ (tokenize text).tokens) :
    (parse text).textOf token.span = String.ofList token.lexeme.text := by
  show (Text.slice? text token.span.start token.span.stop).getD "" = _
  rw [slice?_of_mem_tokenize member]
  rfl

theorem spelledAlike_of_sameLexemes {first second : String} (same : SameLexemes first second) :
    SpelledAlike (parse first).textOf (parse second).textOf (tokenize first).tokens
      (tokenize second).tokens := by
  have spelled : List.Forall₂ (fun token other : Token => token.lexeme = other.lexeme)
      (tokenize first).tokens (tokenize second).tokens := by
    have lexemes : List.Forall₂ Eq (tokenize first).lexemes (tokenize second).lexemes := by
      rw [List.forall₂_eq_eq_eq]
      exact same
    rwa [TokenList.lexemes, TokenList.lexemes, List.forall₂_map_left_iff,
      List.forall₂_map_right_iff] at lexemes
  have ofSecond := (List.forall₂_and_left _ _).mpr ⟨fun _ member => member, spelled.flip⟩
  have ofBoth := (List.forall₂_and_left _ _).mpr ⟨fun _ member => member, ofSecond.flip⟩
  refine ofBoth.imp ?_
  rintro token other ⟨isToken, isOther, lexemes⟩
  rw [textOf_parse isToken, textOf_parse isOther, lexemes]

theorem relaid_parse {first second : String} (same : SameLexemes first second) :
    Tree.Relaid (keepsWord (parse first).textOf (parse second).textOf) (parse first).root
      (parse second).root := by
  let reading := Reading.ofLexemes (tokenize first).lexemes
  have isSecond : (parse second).root = layText second reading.construct reading.skeletons := by
    show layText second (Reading.ofLexemes (tokenize second).lexemes).construct
      (Reading.ofLexemes (tokenize second).lexemes).skeletons = _
    rw [← same]
  rw [isSecond]
  exact relaid_layText (spelledAlike_of_sameLexemes same) reading.complete_tokens reading.isUnit
    reading.shaped

end Document
end Java
end CommandWiring
