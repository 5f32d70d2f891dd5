import CommandWiring.Java.Reader
import CommandWiring.Proofs.Outcomes
import CommandWiring.Proofs.TypeMentions

/-!
# Created types

A constructor call creates the type that is written in front of its arguments. The search in a
lambda asks for less than that: a call counts as soon as it mentions a command type anywhere, be it
in a receiver, an annotation, a type argument, an argument or the body of an anonymous class.
-/

namespace CommandWiring
namespace Java

/-!
# The word for a created type
-/

mutual

/-- The word that names a written type itself, and not one of its type arguments. -/
def ownWord? : Tree -> Option Tree
  | .node slot .typeIdentifier span parts =>
      if span.stop ≤ span.start then none else some (.node slot .typeIdentifier span parts)
  | .node _ .scopedTypeIdentifier _ parts => lastOwnWord? parts
  | .node _ .genericType _ parts => firstOwnWord? parts
  | _ => none

def firstOwnWord? : List Tree -> Option Tree
  | [] => none
  | first :: rest => if first.isNode then ownWord? first else firstOwnWord? rest

def lastOwnWord? : List Tree -> Option Tree
  | [] => none
  | first :: rest => if rest.any Tree.isNode then lastOwnWord? rest else ownWord? first

end

theorem ownWord?_node (slot : Slot) (construct : Construct) (span : Span) (parts : List Tree) :
    ownWord? (.node slot construct span parts) =
      match construct with
      | .typeIdentifier =>
          if span.stop ≤ span.start then none else some (.node slot construct span parts)
      | .scopedTypeIdentifier => lastOwnWord? parts
      | .genericType => firstOwnWord? parts
      | _ => none := by
  cases construct <;> rfl

/-- The type that a constructor call creates. It stands right in front of the arguments. -/
def createdType? (call : Tree) : Option Tree :=
  (call.nodes.takeWhile fun part => part.construct? != some .argumentList).getLast?

def createdWord? (call : Tree) : Option Tree :=
  (createdType? call).bind ownWord?

mutual

theorem mem_typeWords_of_ownWord? : ∀ (tree word : Tree), ownWord? tree = some word ->
    word ∈ typeWords false tree
  | .token _, _, isOwn => by cases isOwn
  | .extra _ _, _, isOwn => by cases isOwn
  | .node slot construct span parts, word, isOwn => by
      rw [ownWord?_node] at isOwn
      split at isOwn
      · split at isOwn
        · cases isOwn
        · next isThere =>
            rcases Option.some.inj isOwn with rfl
            rw [typeWords, Bool.false_or, if_neg (by simpa using isThere)]
            exact List.mem_singleton_self _
      · exact mem_segmentWords_of_lastOwnWord? parts word isOwn
      · exact mem_partWords_of_firstOwnWord? parts word isOwn
      · cases isOwn

theorem mem_partWords_of_firstOwnWord? : ∀ (trees : List Tree) (word : Tree),
    firstOwnWord? trees = some word -> word ∈ partWords false trees
  | [], _, isOwn => by cases isOwn
  | first :: rest, word, isOwn => by
      rw [firstOwnWord?] at isOwn
      rw [partWords]
      split at isOwn
      · exact List.mem_append_left _ (mem_typeWords_of_ownWord? first word isOwn)
      · exact List.mem_append_right _ (mem_partWords_of_firstOwnWord? rest word isOwn)

theorem mem_segmentWords_of_lastOwnWord? : ∀ (trees : List Tree) (word : Tree),
    lastOwnWord? trees = some word -> word ∈ segmentWords false trees
  | [], _, isOwn => by cases isOwn
  | first :: rest, word, isOwn => by
      rw [lastOwnWord?] at isOwn
      rw [segmentWords]
      split at isOwn
      · exact List.mem_append_right _ (mem_segmentWords_of_lastOwnWord? rest word isOwn)
      · next isLast =>
          rw [Bool.not_eq_true] at isLast
          rw [isLast, Bool.or_false]
          exact List.mem_append_left _ (mem_typeWords_of_ownWord? first word isOwn)

end

theorem mem_partWords_of_mem {qualifies : Bool} {trees : List Tree} {tree word : Tree}
    (isPart : tree ∈ trees) (isWord : word ∈ typeWords qualifies tree) :
    word ∈ partWords qualifies trees := by
  rcases List.append_of_mem isPart with ⟨before, after, rfl⟩
  rw [partWords_append, partWords]
  exact List.mem_append_right _ (List.mem_append_left _ isWord)

theorem mem_typeWords_of_createdWord? {call word : Tree}
    (isCall : call.construct? = some .objectCreationExpression)
    (isCreated : createdWord? call = some word) : word ∈ typeWords false call := by
  rcases Option.bind_eq_some_iff.mp isCreated with ⟨type, isType, isOwn⟩
  have isNode : type ∈ call.nodes :=
    (List.takeWhile_prefix _).subset (List.mem_of_getLast? isType)
  have isPart : type ∈ call.children := (List.mem_filter.mp isNode).1
  have isWord := mem_partWords_of_mem isPart (mem_typeWords_of_ownWord? type word isOwn)
  cases call with
  | token span => cases isCall
  | extra span parts => cases isCall
  | node slot construct span parts =>
      rcases Option.some.inj isCall with rfl
      exact isWord

end Java

/-!
# Commands that are created
-/

theorem isFirst_congr {α : Type} {wanted other : α -> Prop} {elements : List α}
    (same : ∀ element ∈ elements, wanted element ↔ other element) (element : α) :
    IsFirst wanted elements element ↔ IsFirst other elements element := by
  have oneWay {one another : α -> Prop}
      (agree : ∀ element ∈ elements, one element ↔ another element)
      (isFirst : IsFirst one elements element) : IsFirst another elements element := by
    rcases isFirst with ⟨isOne, before, after, rfl, noneBefore⟩
    have isElement : element ∈ before ++ element :: after :=
      List.mem_append_right before List.mem_cons_self
    refine ⟨(agree element isElement).mp isOne, before, after, rfl, ?_⟩
    intro earlier isEarlier isAnother
    exact noneBefore earlier isEarlier
      ((agree earlier (List.mem_append_left _ isEarlier)).mpr isAnother)
  exact ⟨oneWay same, oneWay fun element member => (same element member).symm⟩

namespace Search

open SyntaxNode Java

variable {document : Document}

def Creates (types : TypeSet) (call : document.Node) : Prop :=
  ∃ word, createdWord? call.place.focus = some word ∧ document.textOf word.span ∈ types

def NamesBeside (types : TypeSet) (call : document.Node) : Prop :=
  ∃ word ∈ typeWords false call.place.focus, createdWord? call.place.focus ≠ some word ∧
    document.textOf word.span ∈ types

theorem mentions_iff_creates_or_namesBeside {types : TypeSet} {call : document.Node}
    (isCall : kind call = .constructorCall)
    (plain : isPlainlyWritten document.textOf call.place.focus = true) :
    Mentions types call ↔ Creates types call ∨ NamesBeside types call := by
  have isNode : call.place.focus.construct? = some .objectCreationExpression :=
    Place.construct_of_isA (call.place.isA_of_kind.2.1 isCall)
  rw [Mentions, Document.mentions_eq_eraseDups plain]
  constructor
  · rintro ⟨name, isMention, isCommand⟩
    rcases List.mem_map.mp (List.mem_eraseDups.mp isMention) with ⟨word, isWord, rfl⟩
    by_cases isCreated : createdWord? call.place.focus = some word
    · exact Or.inl ⟨word, isCreated, isCommand⟩
    · exact Or.inr ⟨word, isWord, isCreated, isCommand⟩
  · intro given
    have isNamed {word : Tree} (isWord : word ∈ typeWords false call.place.focus) :
        document.textOf word.span ∈ ((typeWords false call.place.focus).map
          fun word => document.textOf word.span).eraseDups :=
      List.mem_eraseDups.mpr (List.mem_map_of_mem isWord)
    rcases given with ⟨word, isCreated, isCommand⟩ | ⟨word, isWord, _, isCommand⟩
    · exact ⟨_, isNamed (mem_typeWords_of_createdWord? isNode isCreated), isCommand⟩
    · exact ⟨_, isNamed isWord, isCommand⟩

/-- The command of a lambda is the first constructor call that creates a command type or names one
beside the type that it creates. Where no call does the latter, it is the first call that creates a
command type. -/
theorem value_inLambda_eq_constructorCall_iff {types : TypeSet} {lambda call : document.Node}
    (plain : ∀ node ∈ preorder maxTreeDepth lambda, kind node = .constructorCall ->
      isPlainlyWritten document.textOf node.place.focus = true) :
    ((inLambda types lambda).value = .constructorCall call ↔
      IsFirst (fun node : document.Node =>
          kind node = .constructorCall ∧ (Creates types node ∨ NamesBeside types node))
        (preorder maxTreeDepth lambda) call) ∧
    ((∀ node ∈ preorder maxTreeDepth lambda, kind node = .constructorCall ->
        ¬ NamesBeside types node) ->
      ((inLambda types lambda).value = .constructorCall call ↔
        IsFirst (fun node : document.Node => kind node = .constructorCall ∧ Creates types node)
          (preorder maxTreeDepth lambda) call)) := by
  have isFound : (inLambda types lambda).value = .constructorCall call ↔
      IsFirst (IsCommandCall types) (preorder maxTreeDepth lambda) call := by
    rw [value_inLambda_eq_iff]
    constructor
    · rintro ⟨isFirst⟩
      exact isFirst
    · exact .command
  have isCommandCall {node : document.Node} (member : node ∈ preorder maxTreeDepth lambda) :
      IsCommandCall types node ↔
        kind node = .constructorCall ∧ (Creates types node ∨ NamesBeside types node) :=
    and_congr_right fun isCall =>
      mentions_iff_creates_or_namesBeside isCall (plain node member isCall)
  rw [isFound]
  refine ⟨isFirst_congr (fun node member => isCommandCall member) call, ?_⟩
  intro noneBeside
  refine isFirst_congr ?_ call
  intro node member
  rw [isCommandCall member]
  exact and_congr_right fun isCall => or_iff_left (noneBeside node member isCall)

theorem value_inLambda_eq_constructorCall_iff_nested_call :
    let document := Document.parse "class A{void f(){aBinder(()->new W(new S()));}}"
    let types := TypeSet.ofList ["S"]
    ∃ lambda ∈ preorder 12 document.rootNode, kind lambda = .lambda ∧
      (∀ node ∈ preorder maxTreeDepth lambda, kind node = .constructorCall ->
        isPlainlyWritten document.textOf node.place.focus = true) ∧
      ∀ call, ((inLambda types lambda).value = .constructorCall call ↔
        IsFirst (fun node : document.Node =>
            kind node = .constructorCall ∧ (Creates types node ∨ NamesBeside types node))
          (preorder maxTreeDepth lambda) call) := by
  intro document types
  have found : ∃ lambda ∈ preorder 12 document.rootNode, kind lambda = .lambda ∧
      ∀ node ∈ preorder maxTreeDepth lambda, kind node = .constructorCall ->
        isPlainlyWritten document.textOf node.place.focus = true := by
    decide +kernel
  rcases found with ⟨lambda, isNode, isLambda, plain⟩
  exact ⟨lambda, isNode, isLambda, plain,
    fun call => (value_inLambda_eq_constructorCall_iff plain).1⟩

/-- A call with a command in its arguments is reported, though it creates no command itself. -/
theorem command_creates_no_command_type :
    let document := Document.parse "class A{void f(){aBinder(()->new W(new S()));}}"
    let types := TypeSet.ofList ["S"]
    ∃ lambda ∈ preorder 12 document.rootNode, ∃ call ∈ preorder 12 document.rootNode,
      kind lambda = .lambda ∧ (inLambda types lambda).value = .constructorCall call ∧
        ¬ Creates types call := by
  intro document types
  have found : ∃ lambda ∈ preorder 12 document.rootNode,
      ∃ call ∈ preorder 12 document.rootNode, kind lambda = .lambda ∧
        (inLambda types lambda).value = .constructorCall call ∧
        (createdWord? call.place.focus).map (fun word => document.textOf word.span) =
          some "W" := by
    decide +kernel
  rcases found with ⟨lambda, isNode, call, alsoNode, isLambda, isFound, isNamed⟩
  refine ⟨lambda, isNode, call, alsoNode, isLambda, isFound, ?_⟩
  rintro ⟨word, isCreated, isCommand⟩
  rw [isCreated, Option.map_some, Option.some.injEq] at isNamed
  rw [isNamed] at isCommand
  exact absurd isCommand (by decide +kernel)

end Search
end CommandWiring
