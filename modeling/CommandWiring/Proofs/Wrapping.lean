import CommandWiring.Proofs.Alike
import CommandWiring.Proofs.Slots
import CommandWiring.Proofs.Visibility

/-!
# Wrapping expressions

Any expression in a tree can be put into parentheses or under a cast, and the result once more. The
view gives way to wrappers, so it shows of the wrapped tree what it shows of the original one.
-/

namespace CommandWiring
namespace Java

def Construct.isExpression : Construct -> Bool
  | identifier | assignmentExpression | ternaryExpression | binaryExpression
  | instanceofExpression | unaryExpression | updateExpression | castExpression
  | lambdaExpression | parenthesizedExpression | objectCreationExpression
  | arrayCreationExpression | fieldAccess | arrayAccess | methodInvocation | methodReference
  | classLiteral | templateExpression | switchExpression | this | numberLiteral
  | characterLiteral | stringLiteral | trueLiteral | falseLiteral | nullLiteral => true
  | _ => false

namespace Tree

def isExpression (tree : Tree) : Bool :=
  tree.construct?.any Construct.isExpression

/-- `image` is `tree` with some expressions in it put into parentheses and casts. `keeps` says what
each part has in common with its counterpart, and `casts` what the types in the new casts are like.
Tokens and comments play no part. -/
inductive Wrapped (keeps : Tree -> Tree -> Bool) (casts : Tree -> Bool) : Tree -> Tree -> Prop where
  | copy {tree image : Tree} :
      tree.construct? = image.construct? -> keeps tree image = true ->
      tree.contents.map slot = image.contents.map slot ->
      (∀ (index : Nat) (part partImage : Tree), tree.contents[index]? = some part ->
        image.contents[index]? = some partImage -> Wrapped keeps casts part partImage) ->
      Wrapped keeps casts tree image
  | parenthesized {tree image inner : Tree} :
      tree.isExpression = true -> tree.slot ≠ .name ->
      image.construct? = some .parenthesizedExpression -> image.contents = [inner] ->
      inner.slot = .plain -> Wrapped keeps casts tree inner -> Wrapped keeps casts tree image
  | cast {tree image inner : Tree} {types : List Tree} :
      tree.isExpression = true -> tree.slot ≠ .name ->
      image.construct? = some .castExpression -> image.contents = types ++ [inner] ->
      inner.slot = .value -> (∀ type ∈ types, type.slot ≠ .value ∧ casts type = true) ->
      Wrapped keeps casts tree inner -> Wrapped keeps casts tree image

/-- `image` is a node like `tree`, and expressions were wrapped below it only. -/
structure Copied (keeps : Tree -> Tree -> Bool) (casts : Tree -> Bool) (tree image : Tree) :
    Prop where
  isNode : tree.isNode = true
  construct : tree.construct? = image.construct?
  kept : keeps tree image = true
  slots : tree.contents.map slot = image.contents.map slot
  parts : ∀ (index : Nat) (part partImage : Tree), tree.contents[index]? = some part ->
    image.contents[index]? = some partImage -> Wrapped keeps casts part partImage

theorem forall₂_nodes_of_contents {related : Tree -> Tree -> Prop} {tree image : Tree}
    (isNode : tree.isNode = true) (construct : tree.construct? = image.construct?)
    (agree : ∀ part partImage, related part partImage -> part.isNode = partImage.isNode)
    (contents : List.Forall₂ related tree.contents image.contents) :
    List.Forall₂ related tree.nodes image.nodes := by
  have isImageNode : image.isNode = true := by rwa [Tree.isNode, ← construct]
  rw [← filter_isNode_contents isNode, ← filter_isNode_contents isImageNode]
  exact rel_filter agree contents

theorem forall₂_contents {related : Tree -> Tree -> Prop} {tree image : Tree}
    (slots : tree.contents.map slot = image.contents.map slot)
    (parts : ∀ (index : Nat) (part partImage : Tree), tree.contents[index]? = some part ->
      image.contents[index]? = some partImage -> related part partImage) :
    List.Forall₂ (fun part partImage => part.slot = partImage.slot ∧ related part partImage)
      tree.contents image.contents := by
  have sameLength : tree.contents.length = image.contents.length := by
    have lengths := congrArg List.length slots
    rwa [List.length_map, List.length_map] at lengths
  refine List.forall₂_of_length_eq_of_get sameLength ?_
  intro index bound imageBound
  have listed := List.getElem?_eq_getElem bound
  have imageListed := List.getElem?_eq_getElem imageBound
  refine ⟨?_, parts index _ _ listed imageListed⟩
  have atIndex := congrArg (fun slots => slots[index]?) slots
  simpa [listed, imageListed] using atIndex

namespace Wrapped

variable {keeps : Tree -> Tree -> Bool} {casts : Tree -> Bool} {tree image : Tree}

theorem isNode_of_isExpression (isExpression : tree.isExpression = true) : tree.isNode = true := by
  rw [Tree.isExpression, Option.any_eq_true] at isExpression
  rcases isExpression with ⟨construct, isConstruct, _⟩
  exact isNode_of_construct isConstruct

theorem isNode (wrapped : Wrapped keeps casts tree image) : tree.isNode = image.isNode := by
  cases wrapped with
  | copy same => rw [Tree.isNode, Tree.isNode, same]
  | parenthesized isExpression _ isImage =>
      rw [isNode_of_isExpression isExpression, isNode_of_construct isImage]
  | cast isExpression _ isImage =>
      rw [isNode_of_isExpression isExpression, isNode_of_construct isImage]

theorem copied (wrapped : Wrapped keeps casts tree image) (isNode : tree.isNode = true)
    (bare : tree.isExpression = false ∨ tree.slot = .name) : Copied keeps casts tree image := by
  have notBoth (isExpression : tree.isExpression = true) (notName : tree.slot ≠ .name) : False := by
    rcases bare with notExpression | isName
    · rw [isExpression] at notExpression
      cases notExpression
    · exact notName isName
  cases wrapped with
  | copy same kept slots parts => exact ⟨isNode, same, kept, slots, parts⟩
  | parenthesized isExpression notName => exact (notBoth isExpression notName).elim
  | cast isExpression notName => exact (notBoth isExpression notName).elim

theorem construct_beq (wrapped : Wrapped keeps casts tree image) {construct : Construct}
    (notExpression : construct.isExpression = false) :
    (tree.construct? == some construct) = (image.construct? == some construct) := by
  have different {other : Construct} (isExpression : other.isExpression = true) :
      (some other == some construct) = false := by
    rw [beq_eq_false_iff_ne]
    rintro same
    rw [Option.some.inj same, notExpression] at isExpression
    cases isExpression
  have notTree (isExpression : tree.isExpression = true) :
      (tree.construct? == some construct) = false := by
    rw [Tree.isExpression, Option.any_eq_true] at isExpression
    rcases isExpression with ⟨other, isOther, isExpression⟩
    rw [isOther]
    exact different isExpression
  cases wrapped with
  | copy same => rw [same]
  | parenthesized isExpression _ isImage => rw [notTree isExpression, isImage, different rfl]
  | cast isExpression _ isImage => rw [notTree isExpression, isImage, different rfl]

theorem mono {keeps' : Tree -> Tree -> Bool} {casts' : Tree -> Bool}
    (keepsLess : ∀ tree image, keeps tree image = true -> keeps' tree image = true)
    (castsMore : ∀ type, casts type = true -> casts' type = true)
    (wrapped : Wrapped keeps casts tree image) : Wrapped keeps' casts' tree image := by
  induction wrapped with
  | copy same kept slots _ ih => exact .copy same (keepsLess _ _ kept) slots ih
  | parenthesized isExpression notName isParenthesized holds isPlain _ ih =>
      exact .parenthesized isExpression notName isParenthesized holds isPlain ih
  | cast isExpression notName isCast holds isValue onlyTypes _ ih =>
      refine .cast isExpression notName isCast holds isValue ?_ ih
      intro type isType
      exact ⟨(onlyTypes type isType).1, castsMore type (onlyTypes type isType).2⟩

end Wrapped

namespace Copied

variable {keeps : Tree -> Tree -> Bool} {casts : Tree -> Bool} {tree image : Tree}

theorem wrapped (copied : Copied keeps casts tree image) : Wrapped keeps casts tree image :=
  .copy copied.construct copied.kept copied.slots copied.parts

theorem forall₂_nodes (copied : Copied keeps casts tree image) :
    List.Forall₂ (fun part partImage => part.slot = partImage.slot ∧
      Wrapped keeps casts part partImage) tree.nodes image.nodes :=
  forall₂_nodes_of_contents copied.isNode copied.construct (fun _ _ pair => pair.2.isNode)
    (forall₂_contents copied.slots copied.parts)

theorem map_slot_nodes (copied : Copied keeps casts tree image) :
    tree.nodes.map slot = image.nodes.map slot := by
  rw [← List.forall₂_eq_eq_eq, List.forall₂_map_left_iff, List.forall₂_map_right_iff]
  exact copied.forall₂_nodes.imp fun _ _ pair => pair.1

end Copied

/-!
# A test for wrapped trees
-/

/-- Whether `image` is `tree` wrapped, as far as `depth` levels of it show. -/
def isWrapped (keeps : Tree -> Tree -> Bool) (casts : Tree -> Bool) : Nat -> Tree -> Tree -> Bool
  | 0, _, _ => false
  | depth + 1, tree, image =>
      let isCopied := tree.construct? == image.construct? && keeps tree image &&
        tree.contents.map slot == image.contents.map slot &&
        (tree.contents.zip image.contents).all fun pair =>
          isWrapped keeps casts depth pair.1 pair.2
      let isInWrapper := match image.contents.reverse with
        | [] => false
        | inner :: types =>
            isWrapped keeps casts depth tree inner &&
              ((image.construct? == some .parenthesizedExpression && types.isEmpty &&
                  inner.slot == .plain) ||
                (image.construct? == some .castExpression && inner.slot == .value &&
                  types.all fun type => type.slot != .value && casts type))
      isCopied || (tree.isExpression && tree.slot != .name && isInWrapper)

theorem wrapped_of_isWrapped {keeps : Tree -> Tree -> Bool} {casts : Tree -> Bool} {depth : Nat}
    {tree image : Tree} (tested : isWrapped keeps casts depth tree image = true) :
    Wrapped keeps casts tree image := by
  induction depth generalizing tree image with
  | zero => cases tested
  | succ depth ih =>
      simp only [isWrapped, Bool.or_eq_true, Bool.and_eq_true, beq_iff_eq, bne_iff_ne] at tested
      rcases tested with ⟨⟨⟨same, kept⟩, slots⟩, parts⟩ | ⟨⟨isExpression, notName⟩, inWrapper⟩
      · refine .copy same kept slots ?_
        intro index part partImage isPart isPartImage
        apply ih
        have member : (part, partImage) ∈ tree.contents.zip image.contents := by
          apply List.mem_of_getElem?
          exact List.getElem?_zip_eq_some.mpr ⟨isPart, isPartImage⟩
        exact List.all_eq_true.mp parts _ member
      · cases listed : image.contents.reverse with
        | nil =>
            rw [listed] at inWrapper
            cases inWrapper
        | cons inner types =>
            rw [listed] at inWrapper
            have holds : image.contents = types.reverse ++ [inner] := by
              rw [← List.reverse_cons, ← listed, List.reverse_reverse]
            simp only [Bool.or_eq_true, Bool.and_eq_true, beq_iff_eq, List.all_eq_true,
              List.isEmpty_iff, bne_iff_ne] at inWrapper
            rcases inWrapper with ⟨inside, ⟨⟨isParenthesized, rfl⟩, isPlain⟩ |
              ⟨⟨isCast, isValue⟩, onlyTypes⟩⟩
            · exact .parenthesized isExpression notName isParenthesized holds isPlain (ih inside)
            · refine .cast isExpression notName isCast holds isValue ?_ (ih inside)
              intro type isType
              exact onlyTypes type (List.mem_reverse.mp isType)

end Tree

namespace Place

variable {root imageRoot : Tree} (keeps : Tree -> Tree -> Bool) (casts : Tree -> Bool)

/-!
# Places that stand for one another
-/

/-- `image` has the same surroundings as `place` and is what it was wrapped into. -/
structure Faces (place : Place root) (image : Place imageRoot) : Prop where
  isNode : place.focus.isNode = true
  wrapped : Tree.Wrapped keeps casts place.focus image.focus
  slot : place.focus.slot = image.focus.slot
  fills : ∀ slot, slot ≠ .plain -> place.fills slot = image.fills slot
  around : place.around? = image.around?

variable {keeps casts}

theorem forall₂_nodes {place : Place root} {image : Place imageRoot}
    (copied : Tree.Copied keeps casts place.focus image.focus) :
    List.Forall₂ (fun inner imageInner => Faces keeps casts inner imageInner ∧
      inner.parent? = some place ∧ imageInner.parent? = some image) place.nodes image.nodes := by
  have pairs := copied.forall₂_nodes
  have slots := copied.map_slot_nodes
  rw [← map_focus_nodes, ← map_focus_nodes, List.forall₂_map_left_iff,
    List.forall₂_map_right_iff] at pairs
  refine List.forall₂_of_length_eq_of_get pairs.length_eq ?_
  intro index bound imageBound
  show Faces keeps casts place.nodes[index] image.nodes[index] ∧
    place.nodes[index].parent? = some place ∧ image.nodes[index].parent? = some image
  have listed := List.getElem?_eq_getElem bound
  have imageListed := List.getElem?_eq_getElem imageBound
  have isParent := (mem_nodes.mp (List.getElem_mem bound)).1
  have isImageParent := (mem_nodes.mp (List.getElem_mem imageBound)).1
  rcases pairs.get bound imageBound with ⟨slot, wrapped⟩
  have isNode := (mem_nodes.mp (List.getElem_mem bound)).2
  refine ⟨⟨isNode, wrapped, slot, ?_, ?_⟩, isParent, isImageParent⟩
  · intro slot named
    rw [fills_eq_of_listed named listed, fills_eq_of_listed named imageListed, slots]
  · rw [around?_of_parent isParent, around?_of_parent isImageParent, copied.construct]

/-!
# Operands
-/

theorem held?_of_parenthesized {place inner : Place root}
    (isA : place.isA .parenthesizedExpression = true) (holds : place.nodes = [inner]) :
    place.held? = some inner := by
  rw [held?, if_pos isA, holds]
  rfl

theorem held?_of_cast {place : Place root} (isA : place.isA .castExpression = true) :
    place.held? = place.inSlot? .value := by
  rw [held?, isA_eq_false isA (by decide), if_neg Bool.false_ne_true, if_pos isA]

/-- The operands of a place and of its image are of the same kind, and nothing was wrapped but
expressions below them. -/
structure SameOperand (keeps : Tree -> Tree -> Bool) (casts : Tree -> Bool) (place : Place root)
    (image : Place imageRoot) : Prop where
  copied : Tree.Copied keeps casts place.operand.focus image.operand.focus
  kind : place.operand.kind = image.operand.kind

theorem SameOperand.of_held {place inner : Place root} {image imageInner : Place imageRoot}
    (held : place.held? = some inner) (imageHeld : image.held? = some imageInner)
    (same : SameOperand keeps casts inner imageInner) : SameOperand keeps casts place image := by
  rcases same with ⟨copied, kind⟩
  constructor
  · rwa [operand_of_held held, operand_of_held imageHeld]
  · rwa [operand_of_held held, operand_of_held imageHeld]

theorem SameOperand.of_image_held {place : Place root} {image imageInner : Place imageRoot}
    (imageHeld : image.held? = some imageInner)
    (same : SameOperand keeps casts place imageInner) : SameOperand keeps casts place image := by
  rcases same with ⟨copied, kind⟩
  constructor
  · rwa [operand_of_held imageHeld]
  · rwa [operand_of_held imageHeld]

theorem SameOperand.of_copied (isUnit : root.IsUnit) (imageIsUnit : imageRoot.IsUnit)
    {place : Place root} {image : Place imageRoot}
    (copied : Tree.Copied keeps casts place.focus image.focus)
    (names : place.fills .name = image.fills .name)
    (around : place.isA .variableDeclarator = true -> place.around? = image.around?)
    (below : List.Forall₂ (fun inner imageInner => inner.focus.slot = imageInner.focus.slot ∧
      SameOperand keeps casts inner imageInner) place.nodes image.nodes) :
    SameOperand keeps casts place image := by
  have sameIsA (construct : Construct) : place.isA construct = image.isA construct := by
    rw [isA, isA, copied.construct]
  cases isParenthesized : place.isA .parenthesizedExpression with
  | true =>
      have alsoParenthesized := (sameIsA _).symm.trans isParenthesized
      rcases nodes_of_parenthesized isUnit isParenthesized with ⟨inner, holds⟩
      rcases nodes_of_parenthesized imageIsUnit alsoParenthesized with ⟨imageInner, imageHolds⟩
      rw [holds, imageHolds] at below
      cases below with
      | cons head _ =>
          exact .of_held (held?_of_parenthesized isParenthesized holds)
            (held?_of_parenthesized alsoParenthesized imageHolds) head.2
  | false =>
      cases isCast : place.isA .castExpression with
      | true =>
          have alsoCast := (sameIsA _).symm.trans isCast
          rcases value_of_cast isUnit isCast with ⟨inner, isValue⟩
          have agree : ∀ (inner : Place root) (imageInner : Place imageRoot),
              inner.focus.slot = imageInner.focus.slot ∧
                SameOperand keeps casts inner imageInner ->
              (inner.focus.slot == Slot.value) = (imageInner.focus.slot == Slot.value) := by
            intro inner imageInner head
            rw [head.1]
          have values := rel_find? agree below
          rw [← inSlot?_eq_find?_nodes place (by decide),
            ← inSlot?_eq_find?_nodes image (by decide),
            ← held?_of_cast isCast, ← held?_of_cast alsoCast] at values
          rw [← held?_of_cast isCast] at isValue
          generalize imageHeld : image.held? = imageInner? at values
          rw [isValue] at values
          cases values with
          | some head => exact .of_held isValue imageHeld head.2
      | false =>
          have notWrapper : place.isWrapper = false := by
            rw [isWrapper, isParenthesized, isCast]
            rfl
          have alsoNotWrapper : image.isWrapper = false := by
            rw [isWrapper, ← sameIsA, ← sameIsA, isParenthesized, isCast]
            rfl
          constructor
          · rwa [operand_of_notWrapper isUnit notWrapper,
              operand_of_notWrapper imageIsUnit alsoNotWrapper]
          · rw [operand_of_notWrapper isUnit notWrapper,
              operand_of_notWrapper imageIsUnit alsoNotWrapper]
            exact kind_congr copied.construct names around

theorem surroundings_of_isExpression {place : Place root} {inner : Place imageRoot}
    (isExpression : place.focus.isExpression = true) (notName : place.focus.slot ≠ .name)
    (notImageName : inner.focus.slot ≠ .name) :
    place.fills .name = inner.fills .name ∧
      (place.isA .variableDeclarator = true -> place.around? = inner.around?) := by
  refine ⟨(fills_eq_false notName).trans (fills_eq_false notImageName).symm, ?_⟩
  intro isDeclarator
  rw [Tree.isExpression, construct_of_isA isDeclarator] at isExpression
  cases isExpression

theorem sameOperand_of_wrapped (isUnit : root.IsUnit) (imageIsUnit : imageRoot.IsUnit)
    {tree imageTree : Tree} (wrapped : Tree.Wrapped keeps casts tree imageTree)
    (isNode : tree.isNode = true) {place : Place root} {image : Place imageRoot}
    (isTree : place.focus = tree) (isImage : image.focus = imageTree)
    (names : place.fills .name = image.fills .name)
    (around : place.isA .variableDeclarator = true -> place.around? = image.around?) :
    SameOperand keeps casts place image := by
  induction wrapped generalizing place image with
  | @copy tree imageTree same kept slots parts ih =>
      subst isTree isImage
      have copied : Tree.Copied keeps casts place.focus image.focus :=
        ⟨isNode, same, kept, slots, parts⟩
      have contents := Tree.forall₂_contents slots fun index part partImage listed imageListed =>
        And.intro (parts index part partImage listed imageListed)
          (@ih index part partImage listed imageListed)
      have below := Tree.forall₂_nodes_of_contents isNode same
        (fun _ _ pair => pair.2.1.isNode) contents
      rw [← map_focus_nodes, ← map_focus_nodes, List.forall₂_map_left_iff,
        List.forall₂_map_right_iff] at below
      have pairs := forall₂_nodes copied
      refine .of_copied isUnit imageIsUnit copied names around ?_
      refine List.forall₂_of_length_eq_of_get pairs.length_eq ?_
      intro index bound imageBound
      have face := (pairs.get bound imageBound).1
      exact ⟨face.slot, (below.get bound imageBound).2.2 face.isNode rfl rfl
        (face.fills .name (by decide)) fun _ => face.around⟩
  | @parenthesized tree imageTree inner isExpression notName isParenthesized holds isPlain inside
      ih =>
      subst isTree isImage
      have isImageNode := Tree.isNode_of_construct isParenthesized
      have holdsInner : image.focus.nodes = [inner] := by
        rw [← Tree.filter_isNode_contents isImageNode, holds,
          List.filter_cons_of_pos (inside.isNode ▸ isNode)]
        rfl
      rw [← map_focus_nodes, List.map_eq_singleton_iff] at holdsInner
      rcases holdsInner with ⟨held, holdsInner, rfl⟩
      have notImageName : held.focus.slot ≠ .name := by
        rw [isPlain]
        decide
      rcases surroundings_of_isExpression isExpression notName notImageName with ⟨names, around⟩
      have isA : image.isA .parenthesizedExpression = true := by
        rw [Place.isA, isParenthesized]
        rfl
      exact .of_image_held (held?_of_parenthesized isA holdsInner) (ih isNode rfl rfl names around)
  | @cast tree imageTree inner types isExpression notName isCast holds isValue onlyTypes _ ih =>
      subst isTree isImage
      have isA : image.isA .castExpression = true := by
        rw [Place.isA, isCast]
        rfl
      have isImageNode := Tree.isNode_of_construct isCast
      rcases value_of_cast imageIsUnit isA with ⟨held, found⟩
      rcases inSlot?_eq_some.mp found with ⟨isParent, fills⟩
      have heldIsValue := slot_of_fills isParent fills
      have isHeld : held.focus = inner := by
        have member : held.focus ∈ image.nodes.map focus := by
          refine List.mem_map_of_mem (mem_nodes.mpr ⟨isParent, ?_⟩)
          exact isNode_of_slot heldIsValue (by decide)
        rw [map_focus_nodes, ← Tree.filter_isNode_contents isImageNode, holds] at member
        rcases List.mem_append.mp (List.mem_filter.mp member).1 with isType | isInner
        · exact absurd heldIsValue (onlyTypes _ isType).1
        · exact List.mem_singleton.mp isInner
      have notImageName : held.focus.slot ≠ .name := by
        rw [heldIsValue]
        decide
      rcases surroundings_of_isExpression isExpression notName notImageName with ⟨names, around⟩
      exact .of_image_held ((held?_of_cast isA).trans found) (ih isNode rfl isHeld names around)

/-!
# Shown places
-/

variable (keeps casts) in
/-- The view shows `image` like `place`. -/
structure Matches (place : Place root) (image : Place imageRoot) : Prop where
  shows : place.Shows
  copied : Tree.Copied keeps casts place.focus image.focus
  kind : place.kind = image.kind
  role : place.role = image.role

theorem Matches.imageShows {place : Place root} {image : Place imageRoot}
    (matched : Matches keeps casts place image) : image.Shows := by
  have sameIsA (construct : Construct) : image.isA construct = place.isA construct := by
    rw [isA, isA, matched.copied.construct]
  refine ⟨?_, ?_, ?_⟩
  · rw [Tree.isNode, ← matched.copied.construct]
    exact matched.shows.isNode
  · rw [isWrapper, sameIsA, sameIsA]
    exact matched.shows.notWrapper
  · rw [sameIsA]
    exact matched.shows.notArguments

/-- Exposed places that face each other, not yet freed from their wrappers. -/
structure FacesBare (keeps : Tree -> Tree -> Bool) (casts : Tree -> Bool) (place : Place root)
    (image : Place imageRoot) : Prop where
  faces : Faces keeps casts place image
  wrapped : place.wrapped = place
  imageWrapped : image.wrapped = image
  notArguments : place.isA .argumentList = false

theorem FacesBare.matches_operand (isUnit : root.IsUnit) (imageIsUnit : imageRoot.IsUnit)
    {place : Place root} {image : Place imageRoot} (bare : FacesBare keeps casts place image) :
    Matches keeps casts place.operand image.operand := by
  rcases bare with ⟨faces, wrapped, imageWrapped, notArguments⟩
  have same := sameOperand_of_wrapped isUnit imageIsUnit faces.wrapped faces.isNode rfl rfl
    (faces.fills .name (by decide)) fun _ => faces.around
  have around : place.operand.wrapped.around? = image.operand.wrapped.around? := by
    rw [wrapped_operand isUnit, wrapped_operand imageIsUnit, wrapped, imageWrapped]
    exact faces.around
  refine ⟨shows_operand isUnit faces.isNode notArguments, same.copied, same.kind,
    role_congr around ?_⟩
  intro slot named
  rw [wrapped_operand isUnit, wrapped_operand imageIsUnit, wrapped, imageWrapped]
  exact faces.fills slot named

theorem isA_eq_of_faces {place : Place root} {image : Place imageRoot}
    (faces : Faces keeps casts place image) {construct : Construct}
    (notExpression : construct.isExpression = false) :
    place.isA construct = image.isA construct :=
  faces.wrapped.construct_beq notExpression

theorem forall₂_exposed (isUnit : root.IsUnit) {place : Place root} {image : Place imageRoot}
    (matched : Matches keeps casts place image) :
    List.Forall₂ (FacesBare keeps casts) place.exposed image.exposed := by
  refine List.rel_flatMap (rel_filter ?_ (forall₂_nodes matched.copied)) ?_
  · rintro inner imageInner ⟨faces, _, _⟩
    have sameIsCall : place.isA .methodInvocation = image.isA .methodInvocation := by
      rw [Place.isA, Place.isA, matched.copied.construct]
    rw [isHidden, isHidden, sameIsCall, isA_eq_of_faces faces rfl, faces.fills .name (by decide)]
  · rintro inner imageInner ⟨faces, isParent, isImageParent⟩
    have sameIsList : inner.isA .argumentList = imageInner.isA .argumentList :=
      isA_eq_of_faces faces rfl
    show List.Forall₂ _ (if inner.isA .argumentList then inner.nodes else [inner])
      (if imageInner.isA .argumentList then imageInner.nodes else [imageInner])
    cases isList : inner.isA .argumentList with
    | false =>
        rw [← sameIsList, isList, if_neg Bool.false_ne_true, if_neg Bool.false_ne_true]
        exact .cons ⟨faces, wrapped_of_parent isParent matched.shows.notWrapper,
          wrapped_of_parent isImageParent matched.imageShows.notWrapper, isList⟩ .nil
    | true =>
        rw [← sameIsList, isList, if_pos rfl, if_pos rfl]
        have isImageList := sameIsList.symm.trans isList
        have notExpression : inner.focus.isExpression = false := by
          rw [Tree.isExpression, construct_of_isA isList]
          rfl
        refine (forall₂_nodes (faces.wrapped.copied faces.isNode (Or.inl notExpression))).imp ?_
        rintro argument imageArgument ⟨faces, inList, inImageList⟩
        have notWrapper {root : Tree} {list : Place root} (isA : list.isA .argumentList = true) :=
          notWrapper_of_isA isA (by decide) (by decide)
        exact ⟨faces, wrapped_of_parent inList (notWrapper isList),
          wrapped_of_parent inImageList (notWrapper isImageList),
          takesArguments_of_parent isUnit inList isList rfl⟩

/-- What a place shows and what its image shows match one by one. -/
theorem Matches.shown (isUnit : root.IsUnit) (imageIsUnit : imageRoot.IsUnit)
    {place : Place root} {image : Place imageRoot} (matched : Matches keeps casts place image) :
    List.Forall₂ (Matches keeps casts) place.shown image.shown := by
  rw [shown_eq_map_exposed, shown_eq_map_exposed]
  exact List.rel_map (fun _ _ bare => bare.matches_operand isUnit imageIsUnit)
    (forall₂_exposed isUnit matched)

theorem matches_top (isUnit : root.IsUnit) (wrapped : Tree.Wrapped keeps casts root imageRoot) :
    Matches keeps casts (top root) (top imageRoot) := by
  rcases isUnit.exists_construct with ⟨construct, isRoot, isWhole⟩
  have notExpression : root.isExpression = false := by
    rw [Tree.isExpression, isRoot]
    cases construct <;> first | rfl | cases isWhole
  have copied := wrapped.copied (Tree.isNode_of_construct isRoot) (Or.inl notExpression)
  refine ⟨shows_top isUnit, copied, kind_congr copied.construct rfl fun _ => rfl, ?_⟩
  apply role_congr
  · rw [wrapped_of_top rfl, wrapped_of_top rfl]
    rfl
  · intro slot _
    rw [wrapped_of_top rfl, wrapped_of_top rfl]
    rfl

theorem Matches.rel_name {place : Place root} {image : Place imageRoot}
    (matched : Matches keeps casts place image) :
    Option.Rel (fun name imageName => name.focus.slot = .name ∧
      keeps name.focus imageName.focus = true) (place.inSlot? .name) (image.inSlot? .name) := by
  rw [inSlot?_eq_find?_nodes place (by decide), inSlot?_eq_find?_nodes image (by decide)]
  have agree : ∀ (name : Place root) (imageName : Place imageRoot),
      (name.focus.slot = imageName.focus.slot ∧
        (name.focus.slot = .name -> keeps name.focus imageName.focus = true)) ->
      (name.focus.slot == Slot.name) = (imageName.focus.slot == Slot.name) := by
    intro name imageName same
    rw [same.1]
  have pairs := (forall₂_nodes matched.copied).imp fun _ _ pair => And.intro pair.1.slot
    fun isName => (pair.1.wrapped.copied pair.1.isNode (Or.inr isName)).kept
  have names := rel_find? agree pairs
  generalize found : place.nodes.find? (fun child => child.focus.slot == Slot.name) = name?,
    image.nodes.find? (fun child => child.focus.slot == Slot.name) = imageName? at names ⊢
  cases names with
  | none => exact .none
  | some same =>
      have accepted := List.find?_some found
      have isName := beq_iff_eq.mp accepted
      exact .some ⟨isName, same.2 isName⟩

end Place
end Java
end CommandWiring
