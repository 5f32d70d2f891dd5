import CommandWiring.Java.Reader
import CommandWiring.Proofs.CompoundNames
import CommandWiring.Proofs.CreatedTypes
import CommandWiring.Proofs.Visibility

/-!
# Declared types and their supertypes

Every declaration of a type that the view shows is listed, in document order. Its supertypes are
read off the texts of the types in its clauses. They are the types that the clauses state if each of
these has a name without annotations in front of it that is written plainly; an annotated type is
left out.
-/

namespace CommandWiring
namespace Java

open SyntaxNode

/-!
# Type arguments behind a name
-/

/-- Whether `front` and white space are what stands in front of the first left angle bracket. -/
def opensWith (front text : List Char) : Bool :=
  let head := text.takeWhile (· != '<')
  front.isPrefixOf head && (head.drop front.length).all Text.isBlank

theorem simpleNameChars_of_opensWith {front text : List Char}
    (opens : opensWith front text = true) : simpleNameChars text = simpleNameChars front := by
  rw [opensWith, Bool.and_eq_true, List.isPrefixOf_iff_prefix, List.all_eq_true] at opens
  rcases opens with ⟨⟨blanks, isHead⟩, areBlank⟩
  rw [← isHead, List.drop_left] at areBlank
  have noAngle : ∀ c ∈ front, (c != '<') = true := by
    intro c member
    have inHead : c ∈ text.takeWhile (· != '<') := by
      rw [← isHead]
      exact List.mem_append_left blanks member
    have passes := List.mem_takeWhile_imp inHead
    exact passes
  rw [simpleNameChars, simpleNameChars, ← isHead, Text.trim_append_blanks areBlank,
    List.takeWhile_eq_self_iff.mpr noAngle]

theorem simpleTypeName_of_opensWith {front text : String}
    (opens : opensWith front.toList text.toList = true) :
    simpleTypeName text = simpleTypeName front :=
  congrArg String.ofList (simpleNameChars_of_opensWith opens)

/-!
# Own words
-/

theorem firstOwnWord?_eq (trees : List Tree) :
    firstOwnWord? trees = (trees.find? Tree.isNode).bind ownWord? := by
  induction trees with
  | nil => rfl
  | cons first rest ih =>
      rw [firstOwnWord?]
      split
      · next isNode => rw [List.find?_cons_of_pos isNode, Option.bind_some]
      · next notNode => rw [List.find?_cons_of_neg notNode, ih]

theorem lastOwnWord?_of_last (front : List Tree) {word : Tree} (isNode : word.isNode = true) :
    lastOwnWord? (front ++ [word]) = ownWord? word := by
  induction front with
  | nil => rfl
  | cons first rest ih =>
      have followed : (rest ++ [word]).any Tree.isNode = true := by
        rw [List.any_append, Bool.or_eq_true]
        exact Or.inr (by simp [isNode])
      rw [List.cons_append, lastOwnWord?, if_pos followed, ih]

theorem ownWord?_of_construct {tree : Tree} {construct : Construct}
    (isNode : tree.construct? = some construct) :
    ownWord? tree =
      if construct = .typeIdentifier then
        if tree.span.stop ≤ tree.span.start then none else some tree
      else if construct = .scopedTypeIdentifier then lastOwnWord? tree.children
      else if construct = .genericType then firstOwnWord? tree.children
      else none := by
  cases tree with
  | token span => cases isNode
  | extra span parts => cases isNode
  | node slot other span parts =>
      rcases Option.some.inj isNode with rfl
      cases other <;> rfl

namespace Declarations

/-!
# Stated supertypes
-/

def clauses (construct : Construct) (declaration : Tree) : List Tree :=
  declaration.children.filter fun part => part.construct? == some construct

def statedSuperclass (declaration : Tree) : List Tree :=
  (clauses .superclass declaration).flatMap Tree.nodes

def statedInterfaces (construct : Construct) (declaration : Tree) : List Tree :=
  (clauses construct declaration).flatMap fun clause => clause.nodes.flatMap Tree.nodes

/-- All types that the clauses of a declaration state to be its supertypes, in their order. -/
def statedSupertypes (declaration : Tree) : List Tree :=
  if declaration.construct? = some .interfaceDeclaration then
    statedInterfaces .extendsInterfaces declaration
  else
    statedSuperclass declaration ++ statedInterfaces .superInterfaces declaration

def behindAnnotations (type : Tree) : Tree :=
  if type.construct? = some .annotatedType then type.nodes.getLast?.getD type else type

/-- The text of the word that names a type, without qualifiers, annotations and type arguments. -/
def ownName (textOf : Span -> String) (type : Tree) : String :=
  ((ownWord? (behindAnnotations type)).map fun word => textOf word.span).getD ""

section

variable {declaration clause : Tree}

theorem length_nodes_eq (tree : Tree) :
    tree.nodes.length = (tree.children.filterMap Tree.seat?).length := by
  have places := Place.length_nodes (.top tree)
  rwa [← List.length_map, Place.map_focus_nodes] at places

theorem length_clauses (construct : Construct) (declaration : Tree) :
    (clauses construct declaration).length =
      ((declaration.children.filterMap Tree.seat?).filter fun seat =>
        seat.construct == construct).length := by
  rw [clauses, ← List.countP_eq_length_filter, ← List.countP_eq_length_filter,
    List.countP_filterMap]
  apply List.countP_congr
  intro part _
  cases part <;> simp [Tree.construct?, Tree.seat?]

theorem exists_construct_of_declaresType (declares : declaresType declaration = true) :
    ∃ construct, declaration.construct? = some construct ∧ construct.declaresType = true := by
  simp only [declaresType, Bool.or_eq_true, beq_iff_eq] at declares
  rcases declares with ((is | is) | is) | is
  all_goals exact ⟨_, is, rfl⟩

theorem holds_of_construct {construct : Construct} (shaped : clause.Shaped)
    (isNode : clause.construct? = some construct) :
    Shape.holds construct (clause.children.filterMap Tree.seat?) = true :=
  (Shape.admits_iff.mp (shaped.admits isNode)).2.2.2

theorem clauses_eq (shaped : declaration.Shaped) (declares : declaresType declaration = true)
    {construct : Construct}
    (isClause : construct ∈ [Construct.superclass, .superInterfaces, .extendsInterfaces]) :
    clauses construct declaration = (childOf? construct declaration).toList := by
  rcases exists_construct_of_declaresType declares with ⟨outer, isNode, isDeclared⟩
  have holds := holds_of_construct shaped isNode
  rw [Shape.holds_of_declaresType isDeclared, Bool.and_eq_true, Shape.repeatsNoClause,
    List.all_eq_true] at holds
  have once := of_decide_eq_true (holds.2 construct isClause)
  rw [← length_clauses] at once
  have isFirst : childOf? construct declaration = (clauses construct declaration).head? := by
    rw [clauses, List.head?_filter]
    rfl
  rw [isFirst]
  generalize clauses construct declaration = found at once ⊢
  rcases found with _ | ⟨first, _ | ⟨second, rest⟩⟩
  · rfl
  · rfl
  · simp at once

theorem of_childOf?_eq_some {construct : Construct}
    (found : childOf? construct declaration = some clause) :
    clause ∈ declaration.children ∧ clause.construct? = some construct := by
  have isConstruct := List.find?_some found
  exact ⟨List.mem_of_find?_eq_some found, beq_iff_eq.mp isConstruct⟩

theorem nodes_of_superclass (shaped : clause.Shaped)
    (isClause : clause.construct? = some .superclass) : ∃ type, clause.nodes = [type] := by
  have single := holds_of_construct shaped isClause
  rw [Shape.holds, beq_iff_eq, ← length_nodes_eq] at single
  exact List.length_eq_one_iff.mp single

theorem nodes_of_typeList {construct : Construct} (shaped : clause.Shaped)
    (isNode : clause.construct? = some construct)
    (isList : ∀ seats, Shape.holds construct seats = (seats == [⟨.plain, .typeList⟩])) :
    ∃ list, clause.nodes = [list] ∧ list.construct? = some .typeList := by
  have single := holds_of_construct shaped isNode
  rw [isList, beq_iff_eq] at single
  have one : clause.nodes.length = 1 := by
    rw [length_nodes_eq, single]
    rfl
  rcases List.length_eq_one_iff.mp one with ⟨list, isSingle⟩
  refine ⟨list, isSingle, ?_⟩
  have member : list ∈ clause.nodes := by
    rw [isSingle]
    exact List.mem_singleton_self list
  rcases List.mem_filter.mp member with ⟨isChild, listIsNode⟩
  rcases Option.isSome_iff_exists.mp listIsNode with ⟨other, isOther⟩
  have isSeat : (⟨list.slot, other⟩ : Seat) ∈ clause.children.filterMap Tree.seat? :=
    List.mem_filterMap.mpr ⟨list, isChild, Tree.seat?_eq_some.mpr ⟨rfl, isOther⟩⟩
  rw [single, List.mem_singleton, Seat.mk.injEq] at isSeat
  rw [isOther, isSeat.2]

/-!
# Stated supertypes that are read
-/

theorem filter_statedSuperclass (shaped : declaration.Shaped)
    (declares : declaresType declaration = true) :
    (statedSuperclass declaration).filter isNamedType = extendedTypes declaration := by
  rw [statedSuperclass, clauses_eq shaped declares (by simp), extendedTypes]
  cases found : childOf? .superclass declaration with
  | none => rfl
  | some clause =>
      rcases of_childOf?_eq_some found with ⟨member, isClause⟩
      rcases nodes_of_superclass (shaped.child member) isClause with ⟨type, isSingle⟩
      rw [Option.toList_some, List.flatMap_singleton, Option.bind_some,
        Tree.find?_children_eq clause isNode_of_isNamedType, isSingle]
      cases isNamed : isNamedType type <;> simp [isNamed]

theorem filter_statedInterfaces (shaped : declaration.Shaped)
    (declares : declaresType declaration = true) {construct : Construct}
    (isClause : construct ∈ [Construct.superclass, .superInterfaces, .extendsInterfaces])
    (isList : ∀ seats, Shape.holds construct seats = (seats == [⟨.plain, .typeList⟩])) :
    (statedInterfaces construct declaration).filter isNamedType =
      listedTypes construct declaration := by
  rw [statedInterfaces, clauses_eq shaped declares isClause, listedTypes]
  cases found : childOf? construct declaration with
  | none => rfl
  | some clause =>
      rcases of_childOf?_eq_some found with ⟨member, isNode⟩
      rcases nodes_of_typeList (shaped.child member) isNode isList with ⟨list, isSingle, listed⟩
      have isFound : childOf? .typeList clause = some list := by
        rw [childOf?, Tree.find?_children_eq clause fun _ is =>
          Tree.isNode_of_construct (beq_iff_eq.mp is), isSingle]
        exact List.find?_cons_of_pos (beq_iff_eq.mpr listed)
      rw [Option.toList_some, List.flatMap_singleton, isSingle, List.flatMap_singleton,
        Option.bind_some, isFound]
      exact (Tree.filter_children_eq list isNode_of_isNamedType).symm

theorem writtenSupertypes_eq (shaped : declaration.Shaped)
    (declares : declaresType declaration = true) :
    writtenSupertypes declaration = (statedSupertypes declaration).filter isNamedType := by
  unfold writtenSupertypes statedSupertypes
  split
  · exact (filter_statedInterfaces shaped declares (by simp) fun _ => rfl).symm
  · rw [List.filter_append, filter_statedSuperclass shaped declares,
      filter_statedInterfaces shaped declares (by simp) fun _ => rfl]

end

theorem filter_map_eq_map_iff {α β : Type} {elements : List α} {accepts : α -> Bool}
    {first second : α -> β} :
    (elements.filter accepts).map first = elements.map second ↔
      ∀ element ∈ elements, accepts element = true ∧ first element = second element := by
  constructor
  · intro same
    have lengths := congrArg List.length same
    rw [List.length_map, List.length_map] at lengths
    have all : elements.filter accepts = elements :=
      List.filter_sublist.eq_of_length lengths
    rw [all, List.map_inj_left] at same
    intro element member
    exact ⟨List.filter_eq_self.mp all element member, same element member⟩
  · intro agree
    rw [List.filter_eq_self.mpr fun element member => (agree element member).1]
    exact List.map_congr_left fun element member => (agree element member).2

/-- The supertypes are the stated ones exactly if each of these has a name and no annotations, and
its simple name is the text of its own word. -/
theorem supertypes_eq_iff (document : Document) {declaration : Tree} (shaped : declaration.Shaped)
    (declares : declaresType declaration = true) :
    supertypes document declaration =
        (statedSupertypes declaration).map (ownName document.textOf) ↔
      ∀ type ∈ statedSupertypes declaration, isNamedType type = true ∧
        simpleTypeName (document.textOf type.span) = ownName document.textOf type := by
  rw [supertypes_eq, writtenSupertypes_eq shaped declares]
  exact filter_map_eq_map_iff

/-!
# Plainly written supertypes
-/

/-- Whether a type is a name, or has its last word right behind a dot apart from white space. -/
def isPlainName (textOf : Span -> String) (type : Tree) : Bool :=
  if type.construct? = some .typeIdentifier then isWrittenName (textOf type.span)
  else type.construct? == some .scopedTypeIdentifier && endsInWord textOf .typeIdentifier type

/-- Whether a type is a plain name, with nothing but white space between it and type arguments. -/
def isPlainType (textOf : Span -> String) (type : Tree) : Bool :=
  if type.construct? = some .genericType then
    type.nodes.head?.any fun name => isPlainName textOf name &&
      opensWith (textOf name.span).toList (textOf type.span).toList
  else isPlainName textOf type

section

variable {document : Document} {type : Tree} (lies : type.LiesIn document.text)

include lies

theorem of_isPlainName (plain : isPlainName document.textOf type = true) :
    (type.construct? = some .typeIdentifier ∨ type.construct? = some .scopedTypeIdentifier) ∧
      ∃ word, ownWord? type = some word ∧
        simpleTypeName (document.textOf type.span) = document.textOf word.span := by
  rw [isPlainName] at plain
  split at plain
  · next isWord =>
      have nonempty : document.textOf type.span ≠ "" := by
        intro isEmpty
        rw [isEmpty] at plain
        exact absurd plain (by decide)
      have isThere : ¬ type.span.stop ≤ type.span.start :=
        Nat.not_le.mpr (Document.lt_of_textOf_ne_empty nonempty)
      refine ⟨Or.inl isWord, type, ?_, simpleTypeName_of_isWrittenName plain⟩
      rw [ownWord?_of_construct isWord, if_pos rfl, if_neg isThere]
  · rw [Bool.and_eq_true, beq_iff_eq] at plain
    rcases plain with ⟨isScoped, endsPlainly⟩
    rcases simpleTypeName_of_endsInWord lies isScoped rfl rfl endsPlainly with
      ⟨front, dot, word, isChildren, isWord, wordFilled, isText⟩
    refine ⟨Or.inr isScoped, word, ?_, isText⟩
    rw [ownWord?_of_construct isScoped, if_neg (by decide), if_pos rfl, isChildren,
      List.append_cons, lastOwnWord?_of_last _ (Tree.isNode_of_construct isWord),
      ownWord?_of_construct isWord, if_pos rfl, if_neg (Nat.not_le.mpr wordFilled)]

theorem of_isPlainType (plain : isPlainType document.textOf type = true) :
    isNamedType type = true ∧
      simpleTypeName (document.textOf type.span) = ownName document.textOf type := by
  rw [isPlainType] at plain
  split at plain
  · next isGeneric =>
      cases isFirst : type.nodes.head? with
      | none =>
          rw [isFirst] at plain
          cases plain
      | some name =>
          rw [isFirst, Option.any_some, Bool.and_eq_true] at plain
          have isPart : name ∈ type.children :=
            (List.mem_filter.mp (List.mem_of_mem_head? isFirst)).1
          rcases of_isPlainName (lies.child isPart) plain.1 with ⟨_, word, isOwn, isText⟩
          have notAnnotated : type.construct? ≠ some .annotatedType := by
            rw [isGeneric]
            decide
          rw [Tree.nodes, List.head?_filter] at isFirst
          constructor
          · rw [isNamedType, isGeneric]
            rfl
          · rw [simpleTypeName_of_opensWith plain.2, isText, ownName, behindAnnotations,
              if_neg notAnnotated, ownWord?_of_construct isGeneric, if_neg (by decide),
              if_neg (by decide), if_pos rfl, firstOwnWord?_eq, isFirst, Option.bind_some, isOwn]
            rfl
  · rcases of_isPlainName lies plain with ⟨isName, word, isOwn, isText⟩
    have notAnnotated : type.construct? ≠ some .annotatedType := by
      rcases isName with is | is <;> rw [is] <;> decide
    constructor
    · rw [isNamedType]
      rcases isName with is | is <;> rw [is] <;> rfl
    · rw [isText, ownName, behindAnnotations, if_neg notAnnotated, isOwn]
      rfl

end

theorem liesIn_of_mem_nodes {text : String} {tree part : Tree} (lies : tree.LiesIn text)
    (member : part ∈ tree.nodes) : part.LiesIn text :=
  lies.child (List.mem_filter.mp member).1

theorem liesIn_of_mem_statedSupertypes {text : String} {declaration type : Tree}
    (lies : declaration.LiesIn text) (member : type ∈ statedSupertypes declaration) :
    type.LiesIn text := by
  have inClause {construct : Construct} {clause : Tree}
      (isClause : clause ∈ clauses construct declaration) : clause.LiesIn text :=
    lies.child (List.mem_filter.mp isClause).1
  have inInterfaces {construct : Construct}
      (isStated : type ∈ statedInterfaces construct declaration) : type.LiesIn text := by
    rcases List.mem_flatMap.mp isStated with ⟨clause, isClause, inLists⟩
    rcases List.mem_flatMap.mp inLists with ⟨list, isList, isType⟩
    exact liesIn_of_mem_nodes (liesIn_of_mem_nodes (inClause isClause) isList) isType
  rw [statedSupertypes] at member
  split at member
  · exact inInterfaces member
  · rcases List.mem_append.mp member with isSuperclass | isInterface
    · rcases List.mem_flatMap.mp isSuperclass with ⟨clause, isClause, isType⟩
      exact liesIn_of_mem_nodes (inClause isClause) isType
    · exact inInterfaces isInterface

/-!
# Declarations of a document
-/

theorem forall₂_filterMap {α β : Type} {f : α -> Option β} {related : β -> α -> Prop}
    {elements : List α} (each : ∀ element ∈ elements, ∃ image, f element = some image ∧
      related image element) : List.Forall₂ related (elements.filterMap f) elements := by
  induction elements with
  | nil => exact .nil
  | cons first rest ih =>
      rw [List.forall_mem_cons] at each
      rcases each.1 with ⟨image, isImage, isRelated⟩
      rw [List.filterMap_cons_some isImage]
      exact .cons isRelated (ih each.2)

section

variable {document : Document} {node : document.Node}

theorem shows_of_declaresType (declares : declaresType node.place.focus = true) :
    node.place.Shows := by
  rcases exists_construct_of_declaresType declares with ⟨construct, isNode, isDeclared⟩
  have other {excluded : Construct} (notDeclared : excluded.declaresType = false) :
      node.place.isA excluded = false := by
    rw [Place.isA, isNode, beq_eq_false_iff_ne]
    intro same
    rw [Option.some.inj same, notDeclared] at isDeclared
    cases isDeclared
  refine ⟨Tree.isNode_of_construct isNode, ?_, other rfl⟩
  rw [Place.isWrapper, other rfl, other rfl]
  rfl

theorem declaration?_eq_some (declares : declaresType node.place.focus = true) :
    ∃ name, name? node = some name ∧
      declaration? document node = some ⟨name, supertypes document node.place.focus⟩ := by
  rcases exists_construct_of_declaresType declares with ⟨construct, isNode, isDeclared⟩
  rcases Place.name_of_declaresType document.isUnit_root (beq_iff_eq.mpr isNode) isDeclared with
    ⟨place, isName⟩
  have named : name? node = some (document.textOf place.focus.span) :=
    Option.map_eq_some_iff.mpr ⟨place, isName, rfl⟩
  refine ⟨_, named, ?_⟩
  rw [declaration?, named, Option.map_some]

end

/-- A declaration is listed with its name, and with the supertypes that it states if each of them is
read right. -/
structure ListsAs (document : Document) (listed : TypeDeclaration) (node : document.Node) :
    Prop where
  name : name? node = some listed.name
  supertypes_iff :
    listed.supertypes = (statedSupertypes node.place.focus).map (ownName document.textOf) ↔
      ∀ type ∈ statedSupertypes node.place.focus, isNamedType type = true ∧
        simpleTypeName (document.textOf type.span) = ownName document.textOf type
  supertypes_of_plain :
    (∀ type ∈ statedSupertypes node.place.focus, isPlainType document.textOf type = true) ->
      listed.supertypes = (statedSupertypes node.place.focus).map (ownName document.textOf)

/-- The `declarations` are those of the document, one for each of those that are listed. -/
structure AreDeclarations (document : Document) (declarations : List document.Node) : Prop where
  inWalk : declarations.Sublist (preorder maxTreeDepth document.rootNode)
  once : declarations.Nodup
  inText : declarations.Pairwise fun first second => first.span.start ≤ second.span.start
  mem_iff : ∀ node, node ∈ declarations ↔
    declaresType node.place.focus = true ∧ ¬ node.place.IsConcealed
  listed : List.Forall₂ (ListsAs document) (inDocument document) declarations

/-- Every declaration of a type that the view does not leave out is listed, in document order and
with its name. The listed supertypes are all those that it states, each by its own word, exactly if
none of them is annotated and each is read right; they are if all of them are written plainly. -/
theorem inDocument_lists_declarations (document : Document)
    (height : HeightAtMost maxTreeDepth document.rootNode) :
    ∃ declarations, AreDeclarations document declarations := by
  let declares (node : document.Node) : Bool := declaresType node.place.focus
  have inOrder : (collectAll document.rootNode declares).Sublist
      (preorder maxTreeDepth document.rootNode) := by
    rw [collectAll_eq_filter]
    exact List.filter_sublist
  refine ⟨collectAll document.rootNode declares, inOrder,
    inOrder.nodup (document.coherent.nodup_preorder .here),
    (document.ordered.preorder_ascending maxTreeDepth).sublist inOrder, ?_, ?_⟩
  · intro node
    rw [mem_collectAll_iff height, Document.exists_descends_iff]
    constructor
    · rintro ⟨⟨_, seen⟩, isDeclared⟩
      exact ⟨isDeclared, seen⟩
    · rintro ⟨isDeclared, seen⟩
      exact ⟨⟨shows_of_declaresType isDeclared, seen⟩, isDeclared⟩
  · apply forall₂_filterMap
    intro node member
    have isDeclared : declaresType node.place.focus = true := (of_mem_collectAll member).2
    have shaped := node.place.shaped_focus document.isUnit_root
    have lies := Document.liesIn_focus node.place
    have exactly := supertypes_eq_iff document shaped isDeclared
    rcases declaration?_eq_some isDeclared with ⟨name, named, isListed⟩
    refine ⟨_, isListed, named, exactly, ?_⟩
    intro plain
    refine exactly.mpr ?_
    intro type isStated
    exact of_isPlainType (liesIn_of_mem_statedSupertypes lies isStated) (plain type isStated)

/-- The second type is declared in the body of an anonymous class. -/
theorem inDocument_lists_declarations_in_anonymous_class :
    let document :=
      Document.parse "class A extends p . B<C>{D d=new D(){enum E implements F,G<H>{}};}"
    HeightAtMost maxTreeDepth document.rootNode ∧
      inDocument document = [⟨"A", ["B"]⟩, ⟨"E", ["F", "G"]⟩] ∧
      ∃ declarations : List document.Node, declarations.Nodup ∧
        (∀ node, node ∈ declarations ↔
          declaresType node.place.focus = true ∧ ¬ node.place.IsConcealed) ∧
        List.Forall₂ (fun listed node => name? node = some listed.name) (inDocument document)
          declarations := by
  intro document
  have checked : (level document.rootNode 13).isEmpty = true ∧
      inDocument document = [⟨"A", ["B"]⟩, ⟨"E", ["F", "G"]⟩] := by
    decide +kernel
  have low : HeightAtMost 12 document.rootNode :=
    heightAtMost_of_level_eq_nil (List.isEmpty_iff.mp checked.1)
  have height : HeightAtMost maxTreeDepth document.rootNode := low.mono (by decide)
  rcases inDocument_lists_declarations document height with ⟨declarations, areAll⟩
  exact ⟨height, checked.2, declarations, areAll.once, areAll.mem_iff,
    areAll.listed.imp fun _ _ listsAs => listsAs.name⟩

/-- An annotated supertype is left out. -/
theorem inDocument_at_annotated_supertype :
    let document := Document.parse "class S extends @Foo Command{}"
    inDocument document = [⟨"S", []⟩] ∧
      ∃ node ∈ preorder 12 document.rootNode, declaresType node.place.focus = true ∧
        (statedSupertypes node.place.focus).map (ownName document.textOf) = ["Command"] := by
  decide +kernel

end Declarations
end Java
end CommandWiring
